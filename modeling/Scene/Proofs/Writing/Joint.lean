/-
Joints that are written and read back.

A limit that is not finite is written as a negative number, which is read as no
limit at all; the two agree, since the limits of an axis that was read are not
negative.  Like what a link holds, an axis gets its owner when it is adopted.
-/
import Scene.Proofs.Reading.Joint
import Scene.Proofs.Writing.Link
import Scene.Writing.Model

namespace Scene

open Reported Element

variable {policy : Policy}

/-! ### Axes -/

namespace Axis

/-- Equal as axes of the same joint. -/
def Alike (a b : Axis Float) : Prop := (a == { b with owner := a.owner }) = true

/-- The numbers of an axis read back. -/
structure ReadsBack (a : Axis Float) : Prop where
  xyz : a.xyz.ReadsBack
  damping : Number.ReadsBack a.damping
  friction : Number.ReadsBack a.friction
  springReference : Number.ReadsBack a.springReference
  springStiffness : Number.ReadsBack a.springStiffness
  lower : Number.ReadsBack a.lower
  upper : Number.ReadsBack a.upper
  effort : Number.ReadsBack a.effort
  velocity : Number.ReadsBack a.velocity
  stiffness : Number.ReadsBack a.stiffness
  dissipation : Number.ReadsBack a.dissipation

/-! ### Limits -/

/-- What is written of a limit reads back. -/
theorem readsBack_writtenLimit {x : Float} (h : Number.ReadsBack x) :
    Number.ReadsBack (writtenLimit x) := by
  unfold writtenLimit
  split
  · exact h
  · exact Number.readsBack_iff.mpr (by decide +kernel)

/-- A limit is meant by what is written of it. -/
theorem beq_limitOf_writtenLimit {x : Float} (h : (x == x) = true) (hx : ¬ x < 0) :
    (x == limitOf (writtenLimit x)) = true := by
  unfold writtenLimit
  cases hfinite : x.isFinite with
  | true =>
    simp only [if_true, limitOf, if_neg hx]
    exact h
  | false =>
    -- it is written as a negative number, and so read as no limit
    have hnone : limitOf (-1) = unbounded := if_pos (by decide +kernel)
    simp only [Bool.false_eq_true, if_false, hnone]
    exact Number.beq_unbounded h hfinite hx

/-! ### Parts of an axis -/

/-- What is written of the direction. -/
def xyzElement (a : Axis Float) : Element :=
  (field "xyz" a.xyz).setNonempty "expressed_in" a.expressedIn

/-- What is written of the resistance. -/
def dynamicsElement (a : Axis Float) : Element :=
  ((((ofTag "dynamics").pushValue "damping" a.damping).pushValue "friction" a.friction).pushValue
    "spring_reference" a.springReference).pushValue "spring_stiffness" a.springStiffness

/-- What is written of the limits. -/
def limitElement (a : Axis Float) : Element :=
  ((((((ofTag "limit").pushValue "lower" a.lower).pushValue "upper" a.upper).pushValue "effort"
    (writtenLimit a.effort)).pushValue "velocity" (writtenLimit a.velocity)).pushValue "stiffness"
    a.stiffness).pushValue "dissipation" a.dissipation

/-- The children of the part of an axis that damps and springs. -/
def dynamicsLayout (a : Axis Float) : List (String × List Element) :=
  [("damping", [field "damping" a.damping]), ("friction", [field "friction" a.friction]),
    ("spring_reference", [field "spring_reference" a.springReference]),
    ("spring_stiffness", [field "spring_stiffness" a.springStiffness])]

/-- The children of the part of an axis that limits its motion. -/
def limitLayout (a : Axis Float) : List (String × List Element) :=
  [("lower", [field "lower" a.lower]), ("upper", [field "upper" a.upper]),
    ("effort", [field "effort" (writtenLimit a.effort)]),
    ("velocity", [field "velocity" (writtenLimit a.velocity)]),
    ("stiffness", [field "stiffness" a.stiffness]),
    ("dissipation", [field "dissipation" a.dissipation])]

/-- The children of an axis: its direction, and the two parts above. -/
def layout (a : Axis Float) : List (String × List Element) :=
  [("xyz", [a.xyzElement]), ("dynamics", [a.dynamicsElement]), ("limit", [a.limitElement])]

/-- The fields of the part that damps and springs. -/
theorem grouped_dynamics (a : Axis Float) :
    a.dynamicsElement.Grouped ["damping", "friction", "spring_reference", "spring_stiffness"]
      a.dynamicsLayout [] where
  children := by simp [dynamicsElement, dynamicsLayout, pushValue_eq]
  tags := by simp [dynamicsLayout]
  nodup := by simp [dynamicsLayout]
  unknown := by simp

/-- The fields of the part that limits. -/
theorem grouped_limit (a : Axis Float) :
    a.limitElement.Grouped ["lower", "upper", "effort", "velocity", "stiffness", "dissipation"]
      a.limitLayout [] where
  children := by simp [limitElement, limitLayout, pushValue_eq]
  tags := by simp [limitLayout]
  nodup := by simp [limitLayout]
  unknown := by simp

@[simp] theorem tag_xyzElement (a : Axis Float) : a.xyzElement.tag = "xyz" :=
  tag_setNonempty _ _ _

/-- The children of an axis are its three parts. -/
theorem grouped (a : Axis Float) :
    a.toElement.Grouped ["xyz", "dynamics", "limit"] a.layout [] where
  children := rfl
  tags := by
    have hdynamics : a.dynamicsElement.tag = "dynamics" := rfl
    have hlimit : a.limitElement.tag = "limit" := rfl
    simp [layout, hdynamics, hlimit]
  nodup := by simp [layout]
  unknown := by simp

theorem headed_dynamics (a : Axis Float) : a.dynamicsElement.Headed "dynamics" [] := ⟨rfl, rfl, rfl⟩

theorem headed_limit (a : Axis Float) : a.limitElement.Headed "limit" [] := ⟨rfl, rfl, rfl⟩

theorem headed (a : Axis Float) : a.toElement.Headed "axis" [] := ⟨rfl, rfl, rfl⟩

/-- A direction names its frame only if there is one to name. -/
theorem attributes_xyzElement (a : Axis Float) :
    a.xyzElement.attributes = nonempty "expressed_in" a.expressedIn := by
  rw [xyzElement, attributes_setNonempty _ (by simp [field])]
  rfl

/-- The direction of an axis can be written. -/
theorem proper_xyzElement {a : Axis Float} (hback : a.ReadsBack) : a.xyzElement.Proper := by
  have htidy := hback.xyz.faithful.tidy
  rw [xyzElement, setNonempty]
  split
  · exact proper_field (by decide) htidy
  · have hname : Markup.IsName "expressed_in" := by decide
    show Element.Proper { tag := "xyz", attributes := [("expressed_in", a.expressedIn)], text := _ }
    exact proper_text (by decide) (by simpa using hname) (by simp) htidy

/-- An axis can be written. -/
theorem proper {a : Axis Float} (hback : a.ReadsBack) : a.toElement.Proper := by
  have hdynamics : a.dynamicsElement.Proper := by
    refine a.grouped_dynamics.proper a.headed_dynamics [] (.refl _) (by decide +kernel) ?_ (by simp)
    simp only [dynamicsLayout, List.forall_mem_cons, List.not_mem_nil, false_implies, implies_true,
      and_true]
    exact ⟨proper_faithful hback.damping.faithful,
      proper_faithful hback.friction.faithful,
      proper_faithful hback.springReference.faithful,
      proper_faithful hback.springStiffness.faithful⟩
  have hlimit : a.limitElement.Proper := by
    refine a.grouped_limit.proper a.headed_limit [] (.refl _) (by decide +kernel) ?_ (by simp)
    simp only [limitLayout, List.forall_mem_cons, List.not_mem_nil, false_implies, implies_true,
      and_true]
    exact ⟨proper_faithful hback.lower.faithful,
      proper_faithful hback.upper.faithful,
      proper_faithful (readsBack_writtenLimit hback.effort).faithful,
      proper_faithful (readsBack_writtenLimit hback.velocity).faithful,
      proper_faithful hback.stiffness.faithful,
      proper_faithful hback.dissipation.faithful⟩
  have hxyz := proper_xyzElement hback
  exact a.grouped.proper a.headed [] (.refl _) (by decide +kernel)
    (by simp [layout, hxyz, hdynamics, hlimit]) (by simp)

/-! ### Reading an axis back -/

/-- The direction is read back, with the frame that it is given in. -/
theorem gives_readXyz {a : Axis Float} (hvalid : a.Valid) (hback : a.ReadsBack) :
    (readXyz a.toElement standard).Gives policy
      { standard with xyz := a.xyz, expressedIn := a.expressedIn } := by
  have hparts : ("xyz", [a.xyzElement]) ∈ a.layout := by simp [layout]
  have hchild : a.toElement.child? "xyz" = some a.xyzElement := a.grouped.child? hparts
  have htext : a.xyzElement.text = some (Writable.write a.xyz) := text_setNonempty _ _ _
  have hvalue : (a.toElement.readValue "xyz").Gives policy (some a.xyz) := by
    refine gives_readValue.mpr (.inr ⟨_, a.xyz, hchild, ?_, rfl⟩)
    rw [htext]
    exact hback.xyz.faithful.read
  have hset : standard.setXyz a.xyz = ({ standard with xyz := a.xyz }, []) := if_neg hvalid.xyz
  simp only [readXyz, gives_bind]
  refine ⟨_, hvalue, ?_⟩
  simp only [hset, List.map_nil, hchild, Option.bind_some, gives_bind, gives_failAll, gives_pure]
  refine ⟨(), trivial, _, rfl, ?_⟩
  rw [attribute?, attributes_xyzElement, nonempty]
  -- an empty name is not written, and none is read as empty
  by_cases hempty : a.expressedIn = ""
  · simp only [hempty, if_true, List.find?_nil, Option.map_none, gives_pure]
    rfl
  · simp [hempty]

/-- What damps and springs is read back. -/
theorem gives_readDynamics {a b : Axis Float} (hback : a.ReadsBack) :
    (readDynamics a.toElement b).Gives policy
      { b with damping := a.damping, friction := a.friction, springReference := a.springReference,
               springStiffness := a.springStiffness } := by
  have hparts : ("dynamics", [a.dynamicsElement]) ∈ a.layout := by simp [layout]
  have hd := a.grouped_dynamics
  simp only [readDynamics, a.grouped.child? hparts, List.head?_cons, gives_bind, gives_pure]
  exact ⟨_, hd.gives_readValueD (by simp [dynamicsLayout]) hback.damping.faithful,
    _, hd.gives_readValueD (by simp [dynamicsLayout]) hback.friction.faithful,
    _, hd.gives_readValueD (by simp [dynamicsLayout]) hback.springReference.faithful,
    _, hd.gives_readValueD (by simp [dynamicsLayout]) hback.springStiffness.faithful, rfl⟩

/-- The limits are read back, each as what was written of it. -/
theorem gives_readLimit {a b : Axis Float} (hback : a.ReadsBack) :
    (readLimit a.toElement b).Gives policy
      { b with lower := a.lower, upper := a.upper, effort := limitOf (writtenLimit a.effort),
               velocity := limitOf (writtenLimit a.velocity), stiffness := a.stiffness,
               dissipation := a.dissipation } := by
  have hparts : ("limit", [a.limitElement]) ∈ a.layout := by simp [layout]
  have hl := a.grouped_limit
  simp only [readLimit, a.grouped.child? hparts, List.head?_cons, gives_bind, gives_pure]
  exact ⟨_, hl.gives_readValueD (by simp [limitLayout]) hback.lower.faithful,
    _, hl.gives_readValueD (by simp [limitLayout]) hback.upper.faithful,
    _, hl.gives_readValueD (by simp [limitLayout]) (readsBack_writtenLimit hback.effort).faithful,
    _, hl.gives_readValueD (by simp [limitLayout]) (readsBack_writtenLimit hback.velocity).faithful,
    _, hl.gives_readValueD (by simp [limitLayout]) hback.stiffness.faithful,
    _, hl.gives_readValueD (by simp [limitLayout]) hback.dissipation.faithful, rfl⟩

/-- **An axis is read back without an owner.** -/
theorem exists_ofElement {a : Axis Float} (hvalid : a.Valid) (hback : a.ReadsBack) :
    ∃ b, (ofElement a.toElement).Gives policy b ∧ a.Alike b := by
  refine ⟨{ a with
    effort := limitOf (writtenLimit a.effort)
    velocity := limitOf (writtenLimit a.velocity)
    owner := "" }, ?_, ?_⟩
  · simp only [ofElement, gives_bind]
    exact ⟨_, gives_readXyz hvalid hback, _, gives_readDynamics hback, gives_readLimit hback⟩
  · have heffort := beq_limitOf_writtenLimit hback.effort.2 hvalid.effort
    have hvelocity := beq_limitOf_writtenLimit hback.velocity.2 hvalid.velocity
    show instBEqAxis.beq _ _ = true
    simp [instBEqAxis.beq, hback.xyz.faithful.refl, hback.damping.2, hback.friction.2,
      hback.springReference.2, hback.springStiffness.2, hback.lower.2, hback.upper.2, heffort,
      hvelocity, hback.stiffness.2, hback.dissipation.2]

end Axis

/-! ### Joints -/

/-- Each type of joints is read from its word. -/
theorem JointType.ofString_text (t : JointType) : ofString t.text = .ok t := by
  cases t <;> rfl

namespace Joint

/-- Joints are compared field by field. -/
theorem beq_iff {j k : Joint} : (j == k) = true ↔
    j.name = k.name ∧ j.type = k.type ∧ j.parent = k.parent ∧ j.child = k.child ∧
      (j.placement == k.placement) = true ∧ (j.axis == k.axis) = true := by
  obtain ⟨⟩ := j
  obtain ⟨⟩ := k
  show instBEqJoint.beq _ _ = true ↔ _
  simp [instBEqJoint.beq]

/-- The numbers of a joint, and of its axis if it has one, read back. -/
structure ReadsBack (j : Joint) : Prop where
  placement : j.placement.ReadsBack
  axis : ∀ a, j.axis = some a → a.ReadsBack

/-- The children of a joint, with no axis where it has none. -/
def layout (j : Joint) : List (String × List Element) :=
  [("parent", [field "parent" j.parent]), ("child", [field "child" j.child]),
    ("pose", j.placement.elements), ("axis", j.axis.toList.map Axis.toElement)]

/-- The children of a joint are those of its layout, of known tags only. -/
theorem grouped (j : Joint) : j.toElement.Grouped knownTags j.layout [] where
  children := by simp [toElement, layout, pushValue_eq, pushPlacement_eq]
  tags := by
    have haxis (a : Axis Float) : a.toElement.tag = "axis" := rfl
    simp [layout, knownTags, haxis]
  nodup := by simp [layout]
  unknown := by simp

theorem headed (j : Joint) :
    j.toElement.Headed "joint" [("name", j.name), ("type", j.type.text)] where
  tag := by simp [toElement, pushValue_eq, pushPlacement_eq]
  attributes := by simp [toElement, pushValue_eq, pushPlacement_eq, putAttribute]
  text := by simp [toElement, pushValue_eq, pushPlacement_eq]

/-- A valid joint can be written. -/
theorem proper {j : Joint} (hvalid : j.Valid policy) (hback : j.ReadsBack) :
    j.toElement.Proper := by
  refine j.grouped.proper j.headed ["name", "type"] (.refl _) (by decide +kernel) ?_ (by simp)
  simp only [layout, List.forall_mem_cons, List.not_mem_nil, false_implies, implies_true, and_true,
    List.forall_mem_map, Option.mem_toList]
  exact ⟨fun htag => proper_field htag hvalid.parent, fun htag => proper_field htag hvalid.child,
    by simp, fun _ a ha => Axis.proper (hback.axis a ha)⟩

/-- The type of a joint is read back. -/
theorem gives_readType (j : Joint) : (readType j.toElement).Gives policy (some j.type) := by
  have htype : j.toElement.attribute? "type" = some j.type.text := j.headed.attribute?
  simp only [readType, htype, JointType.ofString_text, gives_pure]

/-- The axis of a joint knows the name of the joint again. -/
theorem exists_axis {j : Joint} (hvalid : j.Valid policy) (hback : j.ReadsBack) :
    ∃ o, (j.toElement.readChildD "axis" none fun a => some <$> Axis.ofElement a).Gives policy o ∧
      (j.axis == o.map fun a => { a with owner := j.name }) = true := by
  have hparts : ("axis", j.axis.toList.map Axis.toElement) ∈ j.layout := by simp [layout]
  have hchild := j.grouped.child? hparts
  cases haxis : j.axis with
  | none =>
    rw [haxis] at hchild
    exact ⟨none, gives_readChildD.mpr (.inl ⟨hchild, rfl⟩), rfl⟩
  | some a =>
    rw [haxis] at hchild
    obtain ⟨b, hb, heq⟩ := Axis.exists_ofElement (hvalid.axis a haxis) (hback.axis a haxis)
    refine ⟨some b, gives_readChildD.mpr (.inr ⟨_, hchild, gives_map.mpr ⟨b, hb, rfl⟩⟩), ?_⟩
    rw [Option.map_some, Option.some_beq_some, ← hvalid.owner_axis haxis]
    exact heq

/-- **A joint is read back as an equal one.** -/
theorem exists_ofElement {j : Joint} (hvalid : j.Valid policy) (hback : j.ReadsBack) :
    ∃ k, (ofElement j.toElement).Gives policy (some k) ∧ (j == k) = true := by
  obtain ⟨placement, hplacement, hpeq⟩ :=
    j.grouped.exists_readPlacement policy (by simp [layout]) hback.placement
  obtain ⟨axis, haxis, haeq⟩ := exists_axis hvalid hback
  refine ⟨adopt { j with placement, axis }, ?_, beq_iff.mpr ⟨rfl, rfl, rfl, rfl, hpeq, haeq⟩⟩
  simp only [ofElement, gives_bind]
  refine ⟨_, j.headed.gives_readFrameName hvalid.name, ?_⟩
  simp only [gives_bind]
  refine ⟨_, gives_readType j, ?_⟩
  simp only [ofNamed, gives_bind]
  refine ⟨_, j.grouped.gives_requireText (by simp [layout]) hvalid.parent,
    _, j.grouped.gives_requireText (by simp [layout]) hvalid.child, placement, hplacement,
    (), j.grouped.gives_checkChildren, ?_⟩
  have hparts : ("axis", j.axis.toList.map Axis.toElement) ∈ j.layout := by simp [layout]
  have hhas : j.toElement.hasChild "axis" = j.axis.isSome := by
    rw [hasChild, j.grouped.child? hparts]
    cases j.axis <;> rfl
  -- an axis of no use is warned about, and the policy had to tolerate that before
  have huseless := hvalid.useless
  rw [← hhas] at huseless
  split
  · next hcond =>
    simp only [gives_bind, gives_warn, gives_pure]
    exact ⟨(), huseless (by simpa using hcond), axis, haxis, rfl⟩
  · simp only [gives_bind, gives_pure]
    exact ⟨axis, haxis, rfl⟩

end Joint

end Scene

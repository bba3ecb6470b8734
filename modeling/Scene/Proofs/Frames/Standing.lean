/-
Objects that are no frames.

A collision, a visual and a light have a pose, but no frame of their scope
stands for them.  They resolve as if one did.  Take a name that no frame has and
none refers to, and add a frame of this name with the pose of the object,
expressed in what the object is expressed in.  Nothing leads to the new frame,
so all other answers stay as they are; and what leads away from it is the course
of what it refers to, with one frame more in front.  So it has the pose of the
object, or the same thing is wrong with it.

Only the words differ: a circle is reported from where the walk began, and that
is now the new frame.  Hence results are compared up to the codes of errors
(`SameOutcome`).

Main statement: `resolveRelativeTo_as_frame`.
-/
import Scene.Object.Model
import Scene.Proofs.Frames.Extension

namespace Scene

/-! ### Results up to the words of errors -/

/-- Two results are the same value, or errors of the same codes in the same
order. -/
inductive SameOutcome {α : Type} : Except Errors α → Except Errors α → Prop
  | ok (a : α) : SameOutcome (.ok a) (.ok a)
  | error {es fs : Errors} :
      es.map Error.code = fs.map Error.code → SameOutcome (.error es) (.error fs)

namespace SameOutcome

variable {α β γ : Type} {x x' : Except Errors α} {y y' : Except Errors β}

/-- Every outcome is the same as itself. -/
theorem refl (x : Except Errors α) : SameOutcome x x := by
  cases x with
  | ok a => exact .ok a
  | error es => exact .error rfl

/-- Combining goes through the same outcomes to the same outcome. -/
theorem combine (f : α → β → γ) (hx : SameOutcome x x') (hy : SameOutcome y y') :
    SameOutcome (combine f x y) (Scene.combine f x' y') := by
  -- errors of the first come before those of the second, on both sides
  cases hx with
  | ok a =>
    cases hy with
    | ok b => exact .ok (f a b)
    | error hcodes => exact .error hcodes
  | error hcodes =>
    cases hy with
    | ok b => exact .error hcodes
    | error hcodes' =>
      refine .error ?_
      rw [List.map_append, List.map_append, hcodes, hcodes']

end SameOutcome

namespace FrameGraph

variable {R : Type} {g h : FrameGraph R} {reference : Vertex R → Option String}

/-! ### One frame more in front -/

/-- The course that begins with one frame more. -/
def Course.cons (v : Vertex R) : Course R → Course R
  | .rests vs w => .rests (v :: vs) w
  | .lost vs last => .lost (v :: vs) last
  | .returns vs last => .returns (v :: vs) last

/-- A course with one frame more in front, which it does not come back to. -/
theorem Takes.cons (hg : g.Indexed) {v : Vertex R} (hv : v ∈ g.vertices) {next : String}
    (href : reference v = some next) {c : Course R} (hc : g.Takes reference next c)
    (hnew : v.name ∉ c.through.map Vertex.name) : g.Takes reference v.name (c.cons v) := by
  have hlead : g.Leads reference v.name (v :: c.through) c.last :=
    (Leads.cons_iff hg).mpr ⟨hg.vertex?_name hv, next, href, hc.leads⟩
  cases c with
  | rests vs w => exact ⟨hlead, hc.2⟩
  | lost vs last => exact ⟨hlead, hc.2⟩
  | returns vs last =>
    exact ⟨hlead, List.nodup_cons.mpr ⟨hnew, hc.2.1⟩, List.mem_cons_of_mem _ hc.2.2⟩

section

variable [Mul R] [Add R] [Sub R] [OfNat R 0] [OfNat R 1]

/-- One frame more in front adds its pose, or leaves what is wrong as it is. -/
theorem sameOutcome_poseOfCourse_cons (v : Vertex R) (c : Course R) :
    SameOutcome ((poseOfCourse c).map fun outer => outer.compose v.pose)
      (poseOfCourse (c.cons v)) := by
  cases c with
  | rests vs w =>
    show SameOutcome (.ok ((composed vs).compose v.pose)) (.ok (composed (v :: vs)))
    rw [composed_cons]
    exact .ok _
  | lost vs last => exact .error rfl
  | returns vs last => exact .error rfl

end

/-! ### Names that nothing refers to -/

/-- No frame has the name, and none is expressed in it. -/
def IsFree (g : FrameGraph R) (name : String) : Prop :=
  ∀ v ∈ g.vertices, v.name ≠ name ∧ v.relativeTo ≠ name

namespace IsFree

variable {free : String} (hfree : g.IsFree free) (hg : g.Indexed)

include hfree hg

/-- The scope does not have the free name. -/
theorem scopeName_ne : g.scopeName ≠ free := by
  obtain ⟨v, hv, -⟩ := hg.vertex?_scopeName
  obtain ⟨hmem, hname⟩ := hg.vertex?_eq_some_iff.mp hv
  exact hname ▸ (hfree v hmem).1

/-- A name is not replaced by the free one. -/
theorem orScope_ne {name : String} (hne : free ≠ name) : g.orScope name ≠ free := by
  unfold orScope
  split
  · exact hfree.scopeName_ne hg
  · exact hne.symm

/-- References do not lead to a free name. -/
theorem relativeReference_ne {v : Vertex R} (hv : v ∈ g.vertices) :
    g.relativeReference v ≠ some free := by
  -- the scope refers to nothing; a frame that names none refers to the scope
  unfold relativeReference
  split
  · simp
  · split
    · simpa using hfree.scopeName_ne hg
    · simpa using (hfree v hv).2

/-- Only from itself is a free name where a course is lost. -/
theorem eq_of_lost {name : String} {vs : List (Vertex R)}
    (hc : g.Takes g.relativeReference name (.lost vs free)) : name = free := by
  obtain ⟨hlead, -⟩ := hc
  -- a course that goes through frames is lost at a name that the last one refers to
  by_cases hvs : vs = []
  · subst hvs
    exact hlead.1.eq_of_nil.symm
  · obtain ⟨us, u, -, hnext⟩ := hlead.exists_last hvs
    obtain ⟨v, hv, -, href⟩ := (follow_eq_some_iff hg).mp hnext
    exact absurd href (hfree.relativeReference_ne hg hv)

end IsFree

/-- A frame of a free name can be added. -/
theorem IsFree.add_eq_ok {v : Vertex R} (hfree : g.IsFree v.name) (hg : g.Indexed) :
    g.add v = .ok (g.afterAdd v) := by
  obtain ⟨htaken, -⟩ | ⟨-, hadd⟩ := afterAdd_cases g v
  · obtain ⟨u, hu⟩ := hg.contains_iff.mp htaken
    obtain ⟨hmem, hname⟩ := hg.vertex?_eq_some_iff.mp hu
    exact absurd hname (hfree u hmem).1
  · exact hadd

/-! ### What an object is expressed in -/

/-- The frame that an object is expressed in: the one it names, or else its
owner, or else that of the scope. -/
def baseOf (g : FrameGraph R) (relativeTo owner : String) : String :=
  if relativeTo ≠ "" then relativeTo else if owner ≠ "" then owner else g.scopeName

/-- A child is placed relative to what it names, or to its owner. -/
theorem base_ofChild (raw : Pose R) (relativeTo owner : String) :
    (SemanticPose.ofChild raw relativeTo owner).base g = g.baseOf relativeTo owner := by
  simp only [SemanticPose.base, SemanticPose.ofChild, orScope, baseOf]
  by_cases hrelative : relativeTo = ""
  · simp [hrelative]
  · simp [hrelative]

/-- A frame that is expressed in the same refers to it. -/
theorem relativeReference_of_baseOf {v : Vertex R} {relativeTo owner : String}
    (hkind : v.kind ≠ .scope) (hrelative : v.relativeTo = g.baseOf relativeTo owner) :
    g.relativeReference v = some (g.baseOf relativeTo owner) := by
  rw [relativeReference, if_neg hkind, hrelative]
  split
  · next hempty =>
    -- only the name of the scope can be empty here
    unfold baseOf at hempty ⊢
    split at hempty
    · contradiction
    · split at hempty
      · contradiction
      · next hrelative howner => rw [if_neg hrelative, if_neg howner]
  · rfl

/-! ### A frame that stands for an object -/

variable [Mul R] [Add R] [Sub R] [OfNat R 0] [OfNat R 1]

/-- A frame of a free name changes no other pose. -/
theorem poseInScope_of_isFree (hg : g.Indexed) {v : Vertex R} (hfree : g.IsFree v.name)
    {name : String} (hne : name ≠ v.name) :
    (g.afterAdd v).poseInScope name = g.poseInScope name := by
  obtain heq | ⟨vs, hc⟩ := poseInScope_afterAdd hg v name
  · exact heq
  · exact absurd (hfree.eq_of_lost hg hc) hne

/-- A frame of a free name has its pose in what it is expressed in. -/
theorem sameOutcome_of_isFree (hg : g.Indexed) {v : Vertex R} (hfree : g.IsFree v.name)
    {base : String} (href : g.relativeReference v = some base) (hbase : base ≠ v.name) :
    SameOutcome ((g.poseInScope base).map fun outer => outer.compose v.pose)
      ((g.afterAdd v).poseInScope v.name) := by
  have hext := extends_afterAdd hg v
  have hg' := hg.afterAdd v
  have hv : v ∈ (g.afterAdd v).vertices := by
    rw [(add_eq_ok_iff.mp (hfree.add_eq_ok hg)).2]
    exact Array.mem_push_self
  -- the course of the base is still there, and goes through old frames only
  obtain ⟨c, hc⟩ := exists_takes hg g.relativeReference base
  have hc' : (g.afterAdd v).Takes g.relativeReference base c := by
    obtain hc' | ⟨vs, last, u, rfl, hu⟩ := hext.takes_or_found hg hg' hc
    · exact hc'
    · obtain rfl := name_eq_of_afterAdd hg hc.2 hu
      exact absurd (hfree.eq_of_lost hg hc) hbase
  have hnew : v.name ∉ c.through.map Vertex.name := by
    intro hmem
    obtain ⟨u, hu, hname⟩ := List.mem_map.mp hmem
    exact (hfree u (hc.leads.2 u hu)).1 hname
  -- so the new frame takes that course with itself in front
  have hcons := hc'.cons hg' hv href hnew
  rw [← hext.relativeReference_eq] at hcons
  rw [poseInScope_eq_of_takes hg hc, poseInScope_eq_of_takes hg' hcons]
  exact sameOutcome_poseOfCourse_cons v c

/-- An object that is no frame resolves like a frame of a free name. -/
theorem sameOutcome_resolveRelativeTo [Neg R] (hg : g.Indexed) {relativeTo owner target : String}
    {v : Vertex R} (hfree : g.IsFree v.name) (hkind : v.kind ≠ .scope)
    (hrelative : v.relativeTo = g.baseOf relativeTo owner) (hbase : v.name ≠ v.relativeTo)
    (htarget : v.name ≠ target) :
    SameOutcome ((SemanticPose.ofChild v.pose relativeTo owner).resolveRelativeTo g target)
      ((g.afterAdd v).resolvePose v.name target) := by
  have hscope : (g.afterAdd v).orScope target = g.orScope target := by
    rw [orScope, orScope, (extends_afterAdd hg v).scopeName]
  have hself : SameOutcome ((SemanticPose.ofChild v.pose relativeTo owner).poseInScope g)
      ((g.afterAdd v).poseInScope v.name) := by
    rw [SemanticPose.poseInScope, base_ofChild]
    exact sameOutcome_of_isFree hg hfree (relativeReference_of_baseOf hkind hrelative)
      (hrelative ▸ hbase.symm)
  -- the target is another name, so its pose is as it was
  refine hself.combine _ ?_
  rw [hscope, poseInScope_of_isFree hg hfree (hfree.orScope_ne hg htarget)]
  exact .refl _

end FrameGraph

open FrameGraph

/-! ### The objects of a scope -/

/-- The poses of objects that are no frames of their scope, with their places and
the names of their owners. -/
inductive StandsIn : SemanticPose Float → Placement → String → Prop
  | collision (c : Collision) : StandsIn c.semanticPose c.placement c.owner
  | visual (v : Visual) : StandsIn v.semanticPose v.placement v.owner
  | light (l : Light) : StandsIn l.semanticPose l.placement l.owner

/-- The poses of objects that are frames of their scope, with their names. -/
inductive StandsAs : SemanticPose Float → String → Prop
  | link (l : Link) : StandsAs l.semanticPose l.name
  | joint (j : Joint) : StandsAs j.semanticPose j.name
  | frame (f : Frame) : StandsAs f.semanticPose f.name
  | model (m : Model) : StandsAs m.semanticPose m.name

/-- What stands in an owner is placed as a child of that owner. -/
theorem StandsIn.eq_ofChild {p : SemanticPose Float} {place : Placement} {owner : String}
    (h : StandsIn p place owner) : p = .ofChild place.pose place.relativeTo owner := by
  cases h <;> rfl

/-- What stands as a frame has the frame of its name. -/
theorem StandsAs.vertex_eq {p : SemanticPose Float} {name : String} (h : StandsAs p name) :
    p.vertex = some name := by
  cases h <;> rfl

/-- **Objects that are no frames resolve as if they were.**  A collision, a visual
or a light has the pose in a target that a new frame would have there, with the
pose of the object and expressed in what the object is expressed in; or else
both fail with errors of the same codes in the same order.  An object that is a
frame has the pose of this frame, and errors of the object come before those of
the target. -/
theorem resolveRelativeTo_as_frame {g : FrameGraph Float} (hg : g.Reachable) :
    (∀ p place owner, StandsIn p place owner → ∀ name target attachedTo : String,
      name ≠ g.baseOf place.relativeTo owner → name ≠ target →
      (∀ v ∈ g.vertices, v.name ≠ name ∧ v.relativeTo ≠ name) →
      ∃ h, g.add { name, kind := .frame, pose := place.pose,
                   relativeTo := g.baseOf place.relativeTo owner, attachedTo } = .ok h ∧
        SameOutcome (p.resolveRelativeTo g target) (h.resolvePose name target)) ∧
    ∀ p name, StandsAs p name → ∀ target,
      p.resolveRelativeTo g target = g.resolvePose name target ∧
      ∀ es fs, g.poseInScope name = .error es → g.poseInScope (g.orScope target) = .error fs →
        p.resolveRelativeTo g target = .error (es ++ fs) := by
  constructor
  · intro p place owner hp name target attachedTo hbase htarget hfree
    obtain rfl := hp.eq_ofChild
    let v : Vertex Float :=
      { name, kind := .frame, pose := place.pose, relativeTo := g.baseOf place.relativeTo owner
        attachedTo }
    have hfree : g.IsFree v.name := hfree
    exact ⟨g.afterAdd v, hfree.add_eq_ok hg.indexed,
      sameOutcome_resolveRelativeTo (v := v) hg.indexed hfree VertexKind.noConfusion rfl hbase
        htarget⟩
  · intro p name hp target
    have hself : p.poseInScope g = g.poseInScope name := by
      rw [SemanticPose.poseInScope, hp.vertex_eq]
    refine ⟨?_, fun es fs hes hfs => ?_⟩
    · rw [SemanticPose.resolveRelativeTo, hself, resolvePose]
    · rw [SemanticPose.resolveRelativeTo, hself, hes, hfs, combine]

/-- A frame at a place of its own in another one. -/
def orbiting (name relativeTo : String) : Vertex Float :=
  { name, kind := .frame, pose := .ofPosition ⟨1, 0, 0⟩, relativeTo }

/-- Two frames that are expressed in each other. -/
def orbitGraph : FrameGraph Float :=
  { vertices := #[{ name := "world", kind := .scope, pose := .identity }, orbiting "moon" "earth",
      orbiting "earth" "moon"]
    index := (((∅ : Std.TreeMap String Nat).insert "world" 0).insert "moon" 1).insert "earth" 2 }

theorem orbitGraph_reachable : orbitGraph.Reachable :=
  .add (v := orbiting "earth" "moon")
    (.add (v := orbiting "moon" "earth") (.ofName "world") rfl) rfl

/-- A light on one of the two has no pose, and nor has a frame in its place: both are
lost in the circle, which the light enters at the moon and the frame at itself. -/
theorem resolveRelativeTo_orbitGraph :
    let lamp : Light := { name := "lamp", placement := { relativeTo := "moon" }, owner := "earth" }
    let moon : Frame := { name := "moon" }
    orbitGraph.Reachable ∧
    lamp.semanticPose.resolveRelativeTo orbitGraph "ghost" =
      .error [.poseCycle ["moon", "earth", "moon"], .frameNotFound "ghost" "pose query"] ∧
    moon.semanticPose.resolveRelativeTo orbitGraph "ghost" =
      .error [.poseCycle ["moon", "earth", "moon"], .frameNotFound "ghost" "pose query"] ∧
    ∃ h es, orbitGraph.add
        { name := "probe", kind := .frame, pose := .identity, relativeTo := "moon" } = .ok h ∧
      h.resolvePose "probe" "ghost" = .error es ∧
      es.map Error.code = [.poseCycleDetected, .frameNameNotFound] := by
  intro lamp moon
  have hindexed := orbitGraph_reachable.indexed
  have hmoon : orbitGraph.poseInScope "moon" = .error [.poseCycle ["moon", "earth", "moon"]] :=
    poseInScope_eq_of_takes hindexed
      (c := .returns [orbiting "moon" "earth", orbiting "earth" "moon"] "moon")
      ⟨⟨.cons rfl (.cons rfl (.nil _)), by simp [orbitGraph]⟩, by decide, by decide⟩
  have hghost : orbitGraph.poseInScope "ghost" = .error [.frameNotFound "ghost" "pose query"] :=
    poseInScope_eq_of_takes hindexed (takes_lost_nil rfl)
  obtain ⟨hstands, hframes⟩ := resolveRelativeTo_as_frame orbitGraph_reachable
  have hself := (hframes _ _ (.frame moon) "ghost").2 _ _ hmoon hghost
  have hlamp : lamp.semanticPose.resolveRelativeTo orbitGraph "ghost" =
      .error [.poseCycle ["moon", "earth", "moon"], .frameNotFound "ghost" "pose query"] := by
    show combine _ ((orbitGraph.poseInScope "moon").map _) (orbitGraph.poseInScope "ghost") = _
    rw [hmoon, hghost]
    rfl
  obtain ⟨h, hadd, hsame⟩ := hstands _ _ _ (.light lamp) "probe" "ghost" ""
    (by decide) (by decide) (by simp [orbitGraph, orbiting])
  refine ⟨orbitGraph_reachable, hlamp, hself, h, ?_⟩
  rw [hlamp] at hsame
  generalize h.resolvePose "probe" "ghost" = outcome at hsame
  cases hsame with
  | error hcodes => exact ⟨_, hadd, rfl, hcodes.symm⟩

end Scene

/-
Joints as they are read.

A joint that was read without errors names its parent and its child.  Its axis
has a direction, knows the name of the joint, and has no limit below zero,
since a negative limit is read as none.
-/
import Scene.Proofs.Reading.Field
import Scene.Reading.Joint

namespace Scene

open Reported Element

variable {policy : Policy} {e : Element}

/-! ### Axes -/

namespace Axis

/-- What is checked of an axis. -/
structure Valid (a : Axis Float) : Prop where
  xyz : ¬ Vec3.norm a.xyz ≤ epsilon
  effort : ¬ a.effort < 0
  velocity : ¬ a.velocity < 0

/-- The axis that a joint has where nothing is said is valid. -/
theorem valid_standard : standard.Valid where
  xyz := by decide +kernel
  effort := by decide +kernel
  velocity := by decide +kernel

/-- A limit is never negative: a negative number stands for none. -/
theorem not_limitOf_lt (x : Float) : ¬ limitOf x < 0 := by
  unfold limitOf
  split
  · decide +kernel
  · assumption

/-- The name of a frame, which comes after the direction, is not checked. -/
theorem Valid.expressedIn {a b : Axis Float} (ha : a.Valid) {name : Option String}
    (h : (match name with
      | none => pure a
      | some expressedIn => pure { a with expressedIn } : Reported (Axis Float)).Gives policy b) :
    b.Valid := by
  cases name with
  | none =>
    rw [gives_pure] at h
    exact h ▸ ha
  | some expressedIn =>
    rw [gives_pure] at h
    exact h ▸ ⟨ha.xyz, ha.effort, ha.velocity⟩

/-- Reading the direction keeps an axis valid. -/
theorem Valid.readXyz {a b : Axis Float} (ha : a.Valid) (h : (readXyz e a).Gives policy b) :
    b.Valid := by
  simp only [Axis.readXyz, gives_bind] at h
  obtain ⟨o, -, h⟩ := h
  split at h
  · exact ha.expressedIn h
  · next xyz =>
    -- a direction without length is an error, so none was set
    by_cases hnorm : Vec3.norm xyz ≤ epsilon
    · simp [setXyz, hnorm] at h
    · simp only [setXyz, hnorm, if_false, gives_bind, gives_failAll] at h
      have hset : Valid { a with xyz } := ⟨hnorm, ha.effort, ha.velocity⟩
      obtain ⟨-, -, b, hb, h⟩ := h
      rw [gives_pure] at hb
      have hb' : b.Valid := hb ▸ hset
      exact hb'.expressedIn h

/-- Reading what damps and springs keeps an axis valid. -/
theorem Valid.readDynamics {a b : Axis Float} (ha : a.Valid)
    (h : (readDynamics e a).Gives policy b) : b.Valid := by
  simp only [Axis.readDynamics] at h
  split at h
  · rw [gives_pure] at h
    exact h ▸ ha
  · simp only [gives_bind, gives_pure] at h
    obtain ⟨_, -, _, -, _, -, _, -, rfl⟩ := h
    exact ⟨ha.xyz, ha.effort, ha.velocity⟩

/-- Reading the limits keeps an axis valid. -/
theorem Valid.readLimit {a b : Axis Float} (ha : a.Valid) (h : (readLimit e a).Gives policy b) :
    b.Valid := by
  simp only [Axis.readLimit] at h
  split at h
  · rw [gives_pure] at h
    exact h ▸ ha
  · simp only [gives_bind, gives_pure] at h
    obtain ⟨_, -, _, -, _, -, _, -, _, -, _, -, rfl⟩ := h
    exact ⟨ha.xyz, not_limitOf_lt _, not_limitOf_lt _⟩

/-- An axis that is read without errors is valid. -/
theorem valid_of_gives {a : Axis Float} (h : (ofElement e).Gives policy a) : a.Valid := by
  simp only [ofElement, gives_bind] at h
  obtain ⟨a₁, h₁, a₂, h₂, h₃⟩ := h
  exact ((valid_standard.readXyz h₁).readDynamics h₂).readLimit h₃

end Axis

/-! ### Joints -/

namespace Joint

/-- What is checked of a joint. -/
structure Valid (policy : Policy) (j : Joint) : Prop where
  name : IsFrameName j.name
  adopt : j.adopt = j
  parent : Text.IsTidy j.parent
  child : Text.IsTidy j.child
  axis : ∀ a, j.axis = some a → a.Valid
  useless : policy.Tolerates (j.axis.isSome = true ∧ j.type.hasAxis = false)

/-- The axis of a joint knows the name of the joint. -/
theorem Valid.owner_axis {j : Joint} (h : j.Valid policy) {a : Axis Float} (ha : j.axis = some a) :
    a.owner = j.name := by
  have hadopt := congrArg Joint.axis h.adopt
  simp only [Joint.adopt, ha, Option.map_some, Option.some.injEq] at hadopt
  rw [← hadopt]

/-- A joint that has adopted its axis adopts nothing more. -/
theorem adopt_adopt (j : Joint) : j.adopt.adopt = j.adopt := by
  simp [adopt, Function.comp_def]

/-- A joint that was read has the name of its element, and has adopted its axis. -/
theorem exists_of_ofElement {j : Joint} (h : (ofElement e).value = some j) :
    ∃ found : Joint, e.readFrameName.value = some found.name ∧ j = found.adopt := by
  obtain ⟨name, hname, h⟩ := exists_of_value_bind rfl h
  obtain ⟨type, -, h⟩ := exists_of_value_bind rfl h
  simp only [ofNamed, value_bind, value_ite_bind] at h
  split at h
  · exact ⟨_, hname, (Option.some.inj h).symm⟩
  · cases h

/-- Of a name and a type, the rest of a joint is read to a valid one. -/
theorem valid_of_named (he : e.Tidy) {name : String} {type : JointType} (hname : IsFrameName name)
    {j : Joint} (h : (ofNamed e name type).Gives policy (some j)) : j.Valid policy := by
  simp only [ofNamed, gives_bind, gives_requireText] at h
  obtain ⟨_, ⟨parent, hparent, -, rfl⟩, _, ⟨child, hchild, -, rfl⟩, placement, -, -, -, h⟩ := h
  -- whether or not there is a warning, the rest is the same
  have hrest (h : (do
      let axis ← e.readChildD "axis" none fun a => some <$> Axis.ofElement a
      pure (some (Joint.adopt { name, type, parent, child, placement, axis })) :
        Reported (Option Joint)).Gives policy (some j))
      (hwarn : policy.Tolerates (e.hasChild "axis" = true ∧ type.hasAxis = false)) :
      j.Valid policy := by
    simp only [gives_bind, gives_readChildD, gives_map, gives_pure, Option.some.injEq] at h
    obtain ⟨axis, haxis, rfl⟩ := h
    refine ⟨hname, adopt_adopt _, he.childText? hparent, he.childText? hchild, ?_, ?_⟩
    · intro a ha
      obtain ⟨a, rfl, rfl⟩ := Option.map_eq_some_iff.mp ha
      obtain ⟨-, hnone⟩ | ⟨c, -, b, hb, heq⟩ := haxis
      · cases hnone
      · obtain rfl := Option.some.inj heq
        obtain ⟨hxyz, heffort, hvelocity⟩ := Axis.valid_of_gives hb
        exact ⟨hxyz, heffort, hvelocity⟩
    · rintro ⟨hsome, htype⟩
      refine hwarn ⟨?_, htype⟩
      obtain ⟨-, rfl⟩ | ⟨c, hc, -⟩ := haxis
      · simp [adopt] at hsome
      · simp [hasChild, hc]
  split at h
  · next hcond =>
    simp only [gives_bind, gives_warn, gives_pure] at h
    obtain ⟨-, hwarn, h⟩ := h
    refine hrest ?_ fun _ => hwarn
    simpa only [gives_bind, gives_pure] using h
  -- the axis is of use, or there is none
  · next hcond =>
    refine hrest ?_ fun hc => absurd ?_ hcond
    · simpa only [gives_bind, gives_pure] using h
    · simpa using hc

/-- A joint that is read without errors is valid. -/
theorem valid_of_gives (he : e.Tidy) {j : Joint} (h : (ofElement e).Gives policy (some j)) :
    j.Valid policy := by
  simp only [ofElement, gives_bind, gives_readFrameName] at h
  obtain ⟨_, ⟨name, -, hname, rfl⟩, h⟩ := h
  simp only [gives_bind] at h
  obtain ⟨o, -, h⟩ := h
  cases o with
  | none => simp at h
  | some type => exact valid_of_named he hname h

end Joint

end Scene

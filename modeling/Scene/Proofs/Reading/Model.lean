/-
Models as they are read.

What is checked of a model includes that its graph is the one that its children
give and that nothing was wrong with it.  A nested model is read like any other
one, so a model is valid if it passes the checks itself and the models in it
are valid.
-/
import Scene.Proofs.Reading.Joint
import Scene.Proofs.Reading.Link
import Scene.Reading.Model

namespace Scene

open Reported Element

variable {policy : Policy} {e : Element}

/-- A frame that is read without errors has a name that frames can have. -/
theorem Frame.name_of_gives {f : Frame} (h : (ofElement e).Gives policy (some f)) :
    IsFrameName f.name := by
  simp only [ofElement, gives_bind, gives_readFrameName] at h
  obtain ⟨_, ⟨name, -, hname, rfl⟩, h⟩ := h
  simp only [gives_bind, gives_pure, Option.some.injEq] at h
  obtain ⟨-, -, -, -, rfl⟩ := h
  exact hname

namespace Model

/-- What is checked of a model, the models in it aside. -/
structure Checked (policy : Policy) (m : Model) : Prop where
  name : IsFrameName m.name
  links : ∀ l ∈ m.links, l.Valid policy
  joints : ∀ j ∈ m.joints, j.Valid policy
  frames : ∀ f ∈ m.frames, IsFrameName f.name
  distinct : Distinct m.links ∧ Distinct m.joints ∧ Distinct m.frames ∧ Distinct m.models
  bodies : m.isStatic = true ∨ m.links ≠ [] ∨ m.models ≠ []
  errors : m.draft.errors = []
  graph : m.graph = m.draft.graph
  unknown : KeptUnknown policy knownTags m.unknown

/-- A model that is checked at every depth. -/
inductive Valid (policy : Policy) : Model → Prop
  | mk (m : Model) : m.Checked policy → (∀ k ∈ m.models, k.Valid policy) → m.Valid policy

/-- A valid model is checked. -/
theorem Valid.checked {m : Model} (h : m.Valid policy) : m.Checked policy := by
  cases h with
  | mk _ hchecked _ => exact hchecked

/-- The models in a valid one are valid. -/
theorem Valid.nested {m k : Model} (h : m.Valid policy) (hk : k ∈ m.models) :
    k.Valid policy := by
  cases h with
  | mk _ _ hmodels => exact hmodels k hk

/-! ### Reading follows the nesting of elements -/

/-- Nested models are read from the children of their tag, one by one. -/
theorem ofChildren_eq (cs : List Element) :
    ofChildren cs = (cs.filter fun c => c.tag == "model").map ofElement := by
  induction cs with
  | nil => rfl
  | cons c cs ih =>
    rw [ofChildren, ih]
    by_cases h : (c.tag == "model") = true
    · simp [h]
    · simp [h]

/-- A model is read from its element and from what reading the elements of its
nested models gives. -/
theorem ofElement_eq (e : Element) :
    ofElement e = assemble e ((e.childrenNamed "model").map ofElement) := by
  obtain ⟨tag, attributes, text, children⟩ := e
  rw [ofElement, ofChildren_eq]
  rfl

/-- A model that was read has the name of its element, each field as it was read by
itself, and the graph that they give. -/
theorem exists_of_ofElement {m : Model} (h : (ofElement e).value = some m) :
    ∃ name, e.readFrameName.value = some name ∧
      m = (rebuildScope
        { name
          placement := e.readPlacement.value
          isStatic := (e.readFlagD "static" false).value
          selfCollide := (e.readFlagD "self_collide" false).value
          canonicalLink := (e.attribute? "canonical_link").getD ""
          links := (e.readAll Link.ofElement).value
          joints := (e.readAll Joint.ofElement).value
          frames := (e.readAll Frame.ofElement).value
          models := (e.readAll ofElement).value
          unknown := (e.unknownChildren knownTags).value }).1 := by
  rw [ofElement_eq] at h
  obtain ⟨name, hname, h⟩ := exists_of_value_bind rfl h
  simp only [value_bind, value_ite_bind] at h
  exact ⟨name, hname, (Option.some.inj h).symm⟩

/-- A model that is put together without errors is checked, and its nested ones
are among those that were read. -/
theorem checked_of_assemble (he : e.Tidy) {nested : List (Reported (Option Model))} {m : Model}
    (h : (assemble e nested).Gives policy (some m)) :
    m.Checked policy ∧ ∀ k ∈ m.models, ∃ r ∈ nested, r.Gives policy (some k) := by
  simp only [assemble, gives_bind, gives_readFrameName] at h
  obtain ⟨_, ⟨name, -, hname, rfl⟩, h⟩ := h
  simp only [gives_bind] at h
  obtain ⟨placement, -, unknown, hunknown, isStatic, -, selfCollide, -, links, hlinks, joints,
    hjoints, frames, hframes, models, hmodels, h⟩ := h
  -- whether or not there is a body, the rest is the same
  let model : Model :=
    { name, placement, isStatic, selfCollide,
      canonicalLink := (e.attribute? "canonical_link").getD "", links, joints, frames, models,
      unknown }
  have hrest (h : (Reported.failAll model.rebuildScope.2 >>= fun _ =>
      pure (some model.rebuildScope.1)).Gives policy (some m))
      (hbodies : isStatic = true ∨ links ≠ [] ∨ models ≠ []) :
      m.Checked policy ∧ ∀ k ∈ m.models, ∃ r ∈ nested, r.Gives policy (some k) := by
    simp only [rebuildScope, gives_bind, gives_failAll, gives_pure, Option.some.injEq] at h
    obtain ⟨-, herrors, rfl⟩ := h
    obtain ⟨hld, hlinks⟩ := hlinks.of_readAll
    obtain ⟨hjd, hjoints⟩ := hjoints.of_readAll
    obtain ⟨hfd, hframes⟩ := hframes.of_readAll
    obtain ⟨hmd, hmodels⟩ := hmodels.of_keepUnique List.nodup_nil
    refine ⟨⟨hname, ?_, ?_, ?_, ⟨hld, hjd, hfd, hmd⟩, hbodies, herrors, rfl,
      .of_gives he hunknown⟩, ?_⟩
    · intro l hl
      obtain ⟨c, hc, hread⟩ := hlinks l hl
      exact Link.valid_of_gives (he.child hc) hread
    · intro j hj
      obtain ⟨c, hc, hread⟩ := hjoints j hj
      exact Joint.valid_of_gives (he.child hc) hread
    · intro f hf
      obtain ⟨c, -, hread⟩ := hframes f hf
      exact Frame.name_of_gives hread
    · intro k hk
      exact (hmodels k hk).resolve_left (by simp)
  split at h
  · simp at h
  · next hcond =>
    refine hrest ?_ ?_
    · simpa only [gives_bind] using h
    -- otherwise it would have been an error that there is no body
    · simp only [Bool.not_eq_true', List.isEmpty_iff, not_and] at hcond
      cases isStatic with
      | true => exact .inl rfl
      | false =>
        by_cases hl : links = []
        · exact .inr (.inr (hcond rfl hl))
        · exact .inr (.inl hl)

/-- A model that is read without errors is valid, and so are the models in
it. -/
theorem valid_of_gives (he : e.Tidy) {m : Model} (h : (ofElement e).Gives policy (some m)) :
    m.Valid policy := by
  induction e using induction_children generalizing m with
  | h e ih =>
    rw [ofElement_eq] at h
    obtain ⟨hchecked, hmodels⟩ := checked_of_assemble he h
    refine ⟨m, hchecked, ?_⟩
    intro k hk
    obtain ⟨r, hr, hread⟩ := hmodels k hk
    obtain ⟨c, hc, rfl⟩ := List.mem_map.mp hr
    obtain ⟨hc, -⟩ := mem_childrenNamed_iff.mp hc
    exact ih c hc (he.child hc) hread

end Model

end Scene

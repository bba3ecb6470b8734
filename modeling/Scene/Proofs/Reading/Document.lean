/-
Documents as they are read.

A document that was read without errors holds worlds or at most one object that
stands alone, and all of them are valid.
-/
import Scene.Proofs.Reading.Actor
import Scene.Proofs.Reading.Model
import Scene.Reading.Document

namespace Scene

open Reported Element

variable {policy : Policy} {e : Element}

/-! ### Worlds -/

namespace World

/-- What is checked of a world. -/
structure Valid (policy : Policy) (w : World) : Prop where
  name : w.name ≠ ""
  models : ∀ m ∈ w.models, m.Valid policy
  frames : ∀ f ∈ w.frames, IsFrameName f.name
  lights : ∀ l ∈ w.lights, l.Valid policy ∧ l.owner = worldFrame
  actors : ∀ a ∈ w.actors, a.Valid policy
  distinct : Distinct w.models ∧ Distinct w.frames ∧ Distinct w.lights ∧ Distinct w.actors
  errors : w.draft.errors = []
  graph : w.graph = w.draft.graph
  unknown : KeptUnknown policy knownTags w.unknown

/-- A world that is read without errors is valid. -/
theorem valid_of_gives (he : e.Tidy) {w : World} (h : (ofElement e).Gives policy (some w)) :
    w.Valid policy := by
  simp only [ofElement, gives_bind, gives_readName] at h
  obtain ⟨_, ⟨name, -, hname, rfl⟩, h⟩ := h
  simp only [rebuildScope, gives_bind, gives_failAll, gives_pure, Option.some.injEq] at h
  obtain ⟨unknown, hunknown, _, -, _, -, models, hmodels, frames, hframes, lights, hlights, actors,
    hactors, -, herrors, rfl⟩ := h
  obtain ⟨hmd, hmodels⟩ := hmodels.of_readAll
  obtain ⟨hfd, hframes⟩ := hframes.of_readAll
  obtain ⟨hld, hlights⟩ := hlights.of_readAll
  obtain ⟨had, hactors⟩ := hactors.of_readAll
  refine ⟨hname, ?_, ?_, ?_, ?_, ⟨hmd, hfd, ?_, had⟩, herrors, rfl, .of_gives he hunknown⟩
  · intro m hm
    obtain ⟨c, hc, hread⟩ := hmodels m hm
    exact Model.valid_of_gives (he.child hc) hread
  · intro f hf
    obtain ⟨c, -, hread⟩ := hframes f hf
    exact Frame.name_of_gives hread
  -- lights are given to the world after they were read, which leaves the rest as it is
  · intro l hl
    obtain ⟨l, hl', rfl⟩ := List.mem_map.mp hl
    obtain ⟨c, -, hread⟩ := hlights l hl'
    obtain ⟨hlname, hrange⟩ := Light.valid_of_gives hread
    exact ⟨⟨hlname, hrange⟩, rfl⟩
  · intro a ha
    obtain ⟨c, hc, hread⟩ := hactors a ha
    exact Actor.valid_of_gives (he.child hc) hread
  · simpa [Distinct, Function.comp_def, Named.name] using hld

end World

/-! ### Documents -/

/-- What is checked of an object that stands alone. -/
def Standalone.Valid (policy : Policy) : Standalone → Prop
  | .model m => m.Valid policy
  | .light l => l.Valid policy ∧ l.owner = ""
  | .actor a => a.Valid policy

namespace Document

/-- What is checked of a document. -/
structure Valid (policy : Policy) (d : Document) : Prop where
  worlds : ∀ w ∈ d.worlds, w.Valid policy
  distinct : Distinct d.worlds
  content : ∀ x, d.content = some x → x.Valid policy
  apart : d.worlds = [] ∨ d.content = none
  unknown : KeptUnknown policy knownTags d.unknown

/-- At most one object stands alone, and none beside worlds. -/
theorem gives_chooseContent {worlds : List World} {found : List Standalone}
    {content : Option Standalone} :
    (chooseContent worlds found).Gives policy content ↔
      (worlds = [] ∨ found = []) ∧ found = content.toList := by
  unfold chooseContent
  -- without worlds one object may be found; beside worlds none may
  by_cases hw : worlds = []
  · rcases found with - | ⟨x, - | ⟨y, found⟩⟩
    · cases content with
      | none => simp
      | some z => simp
    · cases content with
      | none => simp [hw]
      | some z => simp [hw]
    · cases content with
      | none => simp [hw]
      | some z => simp [hw]
  · rcases found with - | ⟨x, found⟩
    · cases content with
      | none => simp
      | some z => simp
    · simp [hw]

/-- A document that is read without errors is valid, and its root has the right
tag. -/
theorem valid_of_gives (he : e.Tidy) {d : Document} (h : (ofElement e).Gives policy d) :
    e.tag = tag ∧ d.Valid policy := by
  unfold ofElement at h
  split at h
  · simp at h
  · next htag =>
    simp only [gives_bind, gives_chooseContent, gives_pure] at h
    obtain ⟨version, -, unknown, hunknown, worlds, hworlds, models, hmodels, lights, hlights,
      actors, hactors, content, ⟨hapart, hfound⟩, rfl⟩ := h
    obtain ⟨hwd, hworlds⟩ := hworlds.of_readAll
    obtain ⟨-, hmodels⟩ := hmodels.of_readAll
    obtain ⟨-, hlights⟩ := hlights.of_readAll
    obtain ⟨-, hactors⟩ := hactors.of_readAll
    refine ⟨by simpa using htag, ?_, hwd, ?_, ?_, .of_gives he hunknown⟩
    · intro w hw
      obtain ⟨c, hc, hread⟩ := hworlds w hw
      exact World.valid_of_gives (he.child hc) hread
    · intro x hx
      have hmem : x ∈ models.map Standalone.model ++ lights.map .light ++ actors.map .actor := by
        obtain rfl : content = some x := hx
        rw [hfound]
        exact List.mem_singleton_self x
      simp only [List.mem_append, List.mem_map] at hmem
      obtain (⟨m, hm, rfl⟩ | ⟨l, hl, rfl⟩) | ⟨a, ha, rfl⟩ := hmem
      · obtain ⟨c, hc, hread⟩ := hmodels m hm
        exact Model.valid_of_gives (he.child hc) hread
      · obtain ⟨c, -, hread⟩ := hlights l hl
        exact ⟨Light.valid_of_gives hread, Light.owner_of_gives hread⟩
      · obtain ⟨c, hc, hread⟩ := hactors a ha
        exact Actor.valid_of_gives (he.child hc) hread
    · rcases hapart with hapart | hapart
      · exact .inl hapart
      · apply Or.inr
        rw [hfound] at hapart
        simpa using hapart

end Document

end Scene

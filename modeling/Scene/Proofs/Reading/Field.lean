/-
What the readers of fields give.

For each reader of a field there is one statement that says when it gives a
value without errors, in terms of what the element holds.  These statements
are used in both directions: to find out what an object is like that was read,
and to show that what is written can be read.
-/
import Scene.Proofs.Reading.Gives
import Scene.Proofs.Reading.Value

namespace Scene

open Reported

variable {policy : Policy} {α : Type}

/-! ### Conditions on what is read -/

/-- What holds need not be an error: it is only warned about. -/
def Policy.Tolerates (policy : Policy) (p : Prop) : Prop := p → policy.warnings ≠ .error

/-- A name that a frame can have. -/
def IsFrameName (name : String) : Prop := name ≠ "" ∧ Element.isReservedName name = false

/-- An unknown child that the policy takes no offence at. -/
def Policy.Accepts (policy : Policy) (known : List String) (c : Element) : Prop :=
  c.tag ∈ known ∨ Element.isForeign c = true ∨ policy.unrecognized ≠ .error

namespace Element

variable {e c : Element} {tag : String}

/-! ### Fields -/

/-- A field that need not be there is absent, or its text is read. -/
theorem gives_readWith {read : String → Except String α} {o : Option α} :
    (e.readWith tag read).Gives policy o ↔
      (e.child? tag = none ∧ o = none) ∨
      ∃ c v, e.child? tag = some c ∧ read (c.text.getD "") = .ok v ∧ o = some v := by
  unfold readWith
  cases hc : e.child? tag with
  | none => simp [eq_comm]
  | some c =>
    cases hr : read (c.text.getD "") with
    | ok v => simp [hr, eq_comm]
    | error message => simp [hr]

theorem gives_readValue [Readable α] {o : Option α} :
    (e.readValue tag).Gives policy o ↔
      (e.child? tag = none ∧ o = none) ∨
      ∃ c v, e.child? tag = some c ∧ Readable.read (c.text.getD "") = .ok v ∧ o = some v :=
  gives_readWith

/-- A field with a usual value has it, or its text is read. -/
theorem gives_readValueD [Readable α] {default v : α} :
    (e.readValueD tag default).Gives policy v ↔
      (e.child? tag = none ∧ v = default) ∨
      ∃ c, e.child? tag = some c ∧ Readable.read (c.text.getD "") = .ok v := by
  simp only [readValueD, gives_bind, gives_pure, gives_readValue]
  constructor
  · rintro ⟨o, ⟨hc, rfl⟩ | ⟨c, w, hc, hr, rfl⟩, rfl⟩
    · exact .inl ⟨hc, rfl⟩
    · exact .inr ⟨c, hc, hr⟩
  · rintro (⟨hc, rfl⟩ | ⟨c, hc, hr⟩)
    · exact ⟨none, .inl ⟨hc, rfl⟩, rfl⟩
    · exact ⟨some v, .inr ⟨c, v, hc, hr, rfl⟩, rfl⟩

/-- A field that must be there is there, and its text is read. -/
theorem gives_requireValue [Readable α] {o : Option α} :
    (e.requireValue tag).Gives policy o ↔
      ∃ c v, e.child? tag = some c ∧ Readable.read (c.text.getD "") = .ok v ∧ o = some v := by
  unfold requireValue hasChild
  cases hc : e.child? tag with
  | none => simp
  | some c => simp [gives_readValue, hc]

/-- A flag has its usual value, or its text is one of those that flags have. -/
theorem gives_readFlagD {default b : Bool} :
    (e.readFlagD tag default).Gives policy b ↔
      (e.child? tag = none ∧ b = default) ∨
      ∃ c, e.child? tag = some c ∧ readFlag? (c.text.getD "") = some b := by
  simp only [readFlagD, gives_bind, gives_pure, gives_readWith]
  constructor
  · rintro ⟨o, ⟨hc, rfl⟩ | ⟨c, v, hc, hr, rfl⟩, rfl⟩
    · exact .inl ⟨hc, rfl⟩
    · refine .inr ⟨c, hc, ?_⟩
      split at hr
      · next hflag => rw [hflag, Except.ok.inj hr]; rfl
      · cases hr
  · rintro (⟨hc, rfl⟩ | ⟨c, hc, hr⟩)
    · exact ⟨none, .inl ⟨hc, rfl⟩, rfl⟩
    · refine ⟨some b, .inr ⟨c, b, hc, ?_, rfl⟩, rfl⟩
      rw [hr]

/-- A text that must be there is there, and is not empty. -/
theorem gives_requireText {o : Option String} :
    (e.requireText tag).Gives policy o ↔
      ∃ text, e.childText? tag = some text ∧ text ≠ "" ∧ o = some text := by
  unfold requireText requireText.missing
  cases ht : e.childText? tag with
  | none => simp
  | some text =>
    by_cases h : text = ""
    · simp [h]
    · simp [h, eq_comm]

/-- A child with a usual value has it, or is read without errors. -/
theorem gives_readChildD {default v : α} {read : Element → Reported α} :
    (e.readChildD tag default read).Gives policy v ↔
      (e.child? tag = none ∧ v = default) ∨
      ∃ c, e.child? tag = some c ∧ (read c).Gives policy v := by
  unfold readChildD
  cases hc : e.child? tag with
  | none => simp [eq_comm]
  | some c => simp

/-- A share has its usual value, or is read and is between nothing and all,
unless the policy tolerates another one. -/
theorem gives_readShareD {default x : Float} :
    (e.readShareD tag default).Gives policy x ↔
      (e.child? tag = none ∧ x = default) ∨
      ∃ c, e.child? tag = some c ∧ Readable.read (c.text.getD "") = .ok x ∧
        policy.Tolerates (¬ (0 ≤ x ∧ x ≤ 1)) := by
  -- what is done with a value, be it a share or not
  have hshare (y : Float) :
      ((if 0 ≤ y ∧ y ≤ 1 then pure y
        else do
          Reported.warn (s!"{tag} in {e.describe} should lie in [0, 1], got "
            ++ Number.textOfFloat y)
          pure y : Reported Float)).Gives policy x ↔
        y = x ∧ policy.Tolerates (¬ (0 ≤ y ∧ y ≤ 1)) := by
    by_cases h : 0 ≤ y ∧ y ≤ 1
    · simp [h, Policy.Tolerates]
    · simp only [h, if_false, gives_bind, gives_pure, gives_warn, Policy.Tolerates,
        not_false_eq_true, true_implies]
      constructor
      · rintro ⟨_, hw, rfl⟩
        exact ⟨rfl, hw⟩
      · rintro ⟨rfl, hw⟩
        exact ⟨(), hw, rfl⟩
  simp only [readShareD, gives_bind, gives_readValue]
  constructor
  · rintro ⟨o, ⟨hc, rfl⟩ | ⟨c, y, hc, hr, rfl⟩, ho⟩
    · exact .inl ⟨hc, (gives_pure.mp ho).symm⟩
    · obtain ⟨rfl, htol⟩ := (hshare y).mp ho
      exact .inr ⟨c, hc, hr, htol⟩
  · rintro (⟨hc, rfl⟩ | ⟨c, hc, hr, htol⟩)
    · exact ⟨none, .inl ⟨hc, rfl⟩, gives_pure.mpr rfl⟩
    · exact ⟨some x, .inr ⟨c, x, hc, hr, rfl⟩, (hshare x).mpr ⟨rfl, htol⟩⟩

/-! ### Names -/

/-- A name is there, and is not empty. -/
theorem gives_readName {o : Option String} :
    e.readName.Gives policy o ↔
      ∃ name, e.attribute? "name" = some name ∧ name ≠ "" ∧ o = some name := by
  unfold readName readName.missing
  cases ha : e.attribute? "name" with
  | none => simp
  | some name =>
    by_cases h : name = ""
    · simp [h]
    · simp [h, eq_comm]

/-- A name of a frame is there, and is none that is reserved. -/
theorem gives_readFrameName {o : Option String} :
    e.readFrameName.Gives policy o ↔
      ∃ name, e.attribute? "name" = some name ∧ IsFrameName name ∧ o = some name := by
  simp only [readFrameName, gives_bind, gives_readName]
  constructor
  · rintro ⟨_, ⟨name, ha, hne, rfl⟩, ho⟩
    dsimp only at ho
    split at ho
    · simp at ho
    · next hres =>
      rw [gives_pure] at ho
      exact ⟨name, ha, ⟨hne, by simpa using hres⟩, ho.symm⟩
  · rintro ⟨name, ha, ⟨hne, hres⟩, rfl⟩
    refine ⟨_, ⟨name, ha, hne, rfl⟩, ?_⟩
    simp [hres]

/-! ### Children of unknown tags -/

/-- No child is one that the policy does not accept. -/
theorem gives_checkChildren {known : List String} {u : Unit} :
    (e.checkChildren known).Gives policy u ↔ ∀ c ∈ e.children, policy.Accepts known c := by
  simp only [gives_iff_forall, checkChildren, List.mem_map, List.mem_filter, and_true]
  constructor
  · intro h c hc
    by_cases hknown : c.tag ∈ known ∨ isForeign c = true
    · exact hknown.elim .inl fun hf => .inr (.inl hf)
    · obtain ⟨hk, hf⟩ := not_or.mp hknown
      refine .inr (.inr (error?_unrecognized.mp (h _ ⟨c, ⟨hc, ?_⟩, rfl⟩)))
      simp [hk, hf]
  · rintro h _ ⟨c, ⟨hc, hcond⟩, rfl⟩
    rw [error?_unrecognized]
    rcases h c hc with hk | hf | hp
    · simp [hk] at hcond
    · simp [hf] at hcond
    · exact hp

/-- Beside that, the children of unknown tags are kept, in their order. -/
theorem gives_unknownChildren {known : List String} {us : List Element} :
    (e.unknownChildren known).Gives policy us ↔
      (∀ c ∈ e.children, policy.Accepts known c) ∧
      us = e.children.filter fun c => !known.contains c.tag := by
  simp only [unknownChildren, gives_bind, gives_checkChildren, gives_pure, exists_const]
  rw [eq_comm (a := us)]

end Element

/-! ### Objects side by side -/

variable {e : Element}

/-- Objects side by side are read without errors one by one. -/
theorem Reported.Gives.forall_keepUnique [Named α] {kept xs : List α}
    {rs : List (Reported (Option α))} (h : (Element.keepUnique kept rs).Gives policy xs) :
    ∀ r ∈ rs, r.errors policy = [] := by
  induction rs generalizing kept with
  | nil => exact List.forall_mem_nil _
  | cons r rs ih =>
    rw [Element.keepUnique, gives_bind] at h
    obtain ⟨o, hr, h⟩ := h
    refine List.forall_mem_cons.mpr ⟨hr.1, ?_⟩
    cases o with
    | none => exact ih h
    | some y =>
      dsimp only at h
      -- a name that is taken would be an error
      split at h
      · simp at h
      · exact ih h

/-- What is kept was kept before or is read without errors, and names differ. -/
theorem Reported.Gives.of_keepUnique [Named α] {kept xs : List α}
    {rs : List (Reported (Option α))} (h : (Element.keepUnique kept rs).Gives policy xs)
    (hkept : (kept.map Named.name).Nodup) :
    (xs.map Named.name).Nodup ∧ ∀ x ∈ xs, x ∈ kept ∨ ∃ r ∈ rs, r.Gives policy (some x) := by
  have herrors := h.forall_keepUnique
  obtain rfl : _ = xs := h.2
  refine ⟨Element.nodup_keepUnique rs hkept, fun x hx => ?_⟩
  obtain hx | ⟨r, hr, hx⟩ := Element.mem_of_mem_keepUnique hx
  · exact .inl hx
  · exact .inr ⟨r, hr, herrors r hr, hx⟩

/-- Objects of different names are all kept. -/
theorem Element.gives_keepUnique [Named α] {kept xs : List α} {rs : List (Reported (Option α))}
    (h : List.Forall₂ (fun r x => r.Gives policy (some x)) rs xs)
    (hnodup : ((kept ++ xs).map Named.name).Nodup) :
    (Element.keepUnique kept rs).Gives policy (kept ++ xs) := by
  induction h generalizing kept with
  | nil =>
    rw [Element.keepUnique, List.append_nil]
    exact gives_pure.mpr rfl
  | @cons r x rs xs hr _ ih =>
    rw [Element.keepUnique, gives_bind]
    refine ⟨some x, hr, ?_⟩
    have hfree : nameExists kept (Named.name x) = false := by
      rw [List.map_append, List.nodup_append] at hnodup
      simpa [nameExists, named?] using fun y hy => hnodup.2.2 _ (List.mem_map_of_mem hy) _
        (List.mem_map_of_mem List.mem_cons_self)
    simp only [hfree, Bool.false_eq_true, if_false]
    -- the induction goes on with one more object that is kept
    have happend : kept ++ x :: xs = (kept ++ [x]) ++ xs := by simp
    rw [happend] at hnodup ⊢
    exact ih hnodup

/-- Objects that were read from the children of a kind. -/
theorem Reported.Gives.of_readAll [Named α] {read : Element → Reported (Option α)} {xs : List α}
    (h : (e.readAll read).Gives policy xs) :
    (xs.map Named.name).Nodup ∧
      ∀ x ∈ xs, ∃ c ∈ e.children, (read c).Gives policy (some x) := by
  obtain ⟨hnodup, hmem⟩ := Gives.of_keepUnique h List.nodup_nil
  refine ⟨hnodup, ?_⟩
  intro x hx
  rcases hmem x hx with hx | ⟨r, hr, hx⟩
  · cases hx
  · obtain ⟨c, hc, rfl⟩ := List.mem_map.mp hr
    exact ⟨c, (Element.mem_childrenNamed_iff.mp hc).1, hx⟩

/-- Children with distinct names that are read without errors are all kept. -/
theorem Element.gives_readAll [Named α] {read : Element → Reported (Option α)} {xs : List α}
    (h : List.Forall₂ (fun c x => (read c).Gives policy (some x))
      (e.childrenNamed (Named.kind α)) xs)
    (hnodup : (xs.map Named.name).Nodup) : (e.readAll read).Gives policy xs :=
  gives_keepUnique (List.forall₂_map_left_iff.mpr h) hnodup

end Scene

/-
Rows that belong together.

What is read back of a row is a row of the same length, and each member of one
is related to that of the other in its place.
-/
import Mathlib.Data.List.Forall2

namespace Scene

/-- Rows are equal if they are so one by one. -/
theorem beq_list_iff {α : Type} [BEq α] {xs ys : List α} :
    (xs == ys) = true ↔ List.Forall₂ (fun x y => (x == y) = true) xs ys := by
  induction xs generalizing ys with
  | nil => cases ys <;> simp
  | cons x xs ih => cases ys <;> simp [ih]

/-- What belongs together in two rows. -/
theorem exists_of_forall₂ {α β : Type} {r : α → β → Prop} {xs : List α} {ys : List β}
    (h : List.Forall₂ r xs ys) {x : α} (hx : x ∈ xs) : ∃ y ∈ ys, r x y := by
  induction h with
  | nil => cases hx
  | cons hr _ ih =>
    rcases List.mem_cons.mp hx with rfl | hx
    · exact ⟨_, List.mem_cons_self, hr⟩
    · obtain ⟨y, hy, hr⟩ := ih hx
      exact ⟨y, List.mem_cons_of_mem _ hy, hr⟩

/-- Rows whose members agree in something. -/
theorem map_eq_of_forall₂ {α β γ : Type} {r : α → β → Prop} {f : α → γ} {g : β → γ}
    (hr : ∀ x y, r x y → f x = g y) {xs : List α} {ys : List β} (h : List.Forall₂ r xs ys) :
    xs.map f = ys.map g := by
  induction h with
  | nil => rfl
  | cons hxy _ ih => rw [List.map_cons, List.map_cons, hr _ _ hxy, ih]

/-- A row equals what another one becomes if they agree one by one. -/
theorem beq_map_of_forall₂ {α β : Type} [BEq α] {r : α → β → Prop} {p : α → Prop} {f : β → α}
    (hr : ∀ x y, p x → r x y → (x == f y) = true) {xs : List α} {ys : List β}
    (hp : ∀ x ∈ xs, p x) (h : List.Forall₂ r xs ys) : (xs == ys.map f) = true := by
  have hboth := (List.forall₂_and_left xs ys).mpr ⟨hp, h⟩
  rw [beq_list_iff, List.forall₂_map_right_iff]
  exact hboth.imp fun x y hxy => hr x y hxy.1 hxy.2

/-- To each member of a row one that belongs to it. -/
theorem exists_forall₂ {α β : Type} {r : α → β → Prop} {xs : List α}
    (h : ∀ x ∈ xs, ∃ y, r x y) : ∃ ys, List.Forall₂ r xs ys := by
  induction xs with
  | nil => exact ⟨[], .nil⟩
  | cons x xs ih =>
    obtain ⟨⟨y, hy⟩, hxs⟩ := List.forall_mem_cons.mp h
    obtain ⟨ys, hys⟩ := ih hxs
    exact ⟨y :: ys, .cons hy hys⟩

end Scene

/-
The first of each key.

Of the members of a row that share a key only the first one is kept.  What is
kept stands in the order of the row (`firsts_sublist`), no key is kept twice
(`nodup_map_firsts`), every key is kept (`mem_map_firsts`), and it is kept for
the member that has it first (`mem_firsts_iff`).

That is what becomes of objects side by side, of trajectories and of worlds,
which are offered in turn and turned away if their name or number is taken.
-/
import Mathlib.Data.Finset.Card
import Scene.Object.Named

namespace Scene

variable {α κ : Type} [DecidableEq κ] {key : α → κ}

/-! ### Rows with keys -/

/-- The first member of each key, in order. -/
def firsts (key : α → κ) : List α → List α
  | [] => []
  | a :: as => a :: (firsts key as).filter fun b => key b ≠ key a

@[simp] theorem firsts_nil : firsts key ([] : List α) = [] := rfl

theorem firsts_sublist (key : α → κ) (as : List α) : (firsts key as).Sublist as := by
  induction as with
  | nil => exact .slnil
  | cons a as ih => exact (List.filter_sublist.trans ih).cons_cons a

@[simp] theorem mem_map_firsts {k : κ} {as : List α} :
    k ∈ (firsts key as).map key ↔ k ∈ as.map key := by
  induction as with
  | nil => rfl
  | cons a as ih =>
    by_cases hk : k = key a
    · simp [firsts, hk]
    · -- only members of the key of `a` are left out behind it
      have hrest : k ∈ ((firsts key as).filter fun b => key b ≠ key a).map key ↔
          k ∈ (firsts key as).map key := by
        simp only [List.mem_map, List.mem_filter, decide_eq_true_eq]
        exact exists_congr fun b => ⟨fun h => ⟨h.1.1, h.2⟩, fun h => ⟨⟨h.1, h.2 ▸ hk⟩, h.2⟩⟩
      rw [firsts, List.map_cons, List.mem_cons, hrest, ih, List.map_cons, List.mem_cons]

theorem nodup_map_firsts (key : α → κ) (as : List α) : ((firsts key as).map key).Nodup := by
  induction as with
  | nil => exact .nil
  | cons a as ih =>
    rw [firsts, List.map_cons, List.nodup_cons]
    refine ⟨?_, ih.sublist (List.filter_sublist.map key)⟩
    simp

/-- The keys tell how many are kept. -/
theorem length_firsts (key : α → κ) (as : List α) :
    (firsts key as).length = (as.map key).toFinset.card := by
  have hkeys : ((firsts key as).map key).toFinset = (as.map key).toFinset := by
    ext k
    simp only [List.mem_toFinset, mem_map_firsts]
  rw [← hkeys, List.toFinset_card_of_nodup (nodup_map_firsts key as), List.length_map]

/-- Of a second row those are kept whose keys the first one has not. -/
theorem firsts_append (key : α → κ) (as bs : List α) : firsts key (as ++ bs) =
    firsts key as ++ (firsts key bs).filter fun b => key b ∉ as.map key := by
  induction as with
  | nil => simp
  | cons a as ih =>
    rw [List.cons_append, firsts, firsts, ih, List.filter_append, List.filter_filter,
      List.cons_append]
    congr 3
    funext b
    simp [not_or]

/-- One more member is kept if its key is new. -/
theorem firsts_concat (key : α → κ) (as : List α) (a : α) : firsts key (as ++ [a]) =
    if key a ∈ as.map key then firsts key as else firsts key as ++ [a] := by
  rw [firsts_append, firsts, firsts_nil, List.filter_nil]
  split
  · next h => rw [List.filter_cons_of_neg (by simpa using h), List.filter_nil, List.append_nil]
  · next h => rw [List.filter_cons_of_pos (by simpa using h), List.filter_nil]

/-- A member is kept where it stands with none of its key before it. -/
theorem mem_firsts_iff {a : α} {as : List α} :
    a ∈ firsts key as ↔
      ∃ before after, as = before ++ a :: after ∧ key a ∉ before.map key := by
  constructor
  · induction as with
    | nil => exact nofun
    | cons b as ih =>
      intro h
      rcases List.mem_cons.mp h with rfl | h
      · exact ⟨[], as, rfl, List.not_mem_nil⟩
      · -- it is the first one of the rest, and its key is not that of `b`
        obtain ⟨hmem, hne⟩ := List.mem_filter.mp h
        obtain ⟨before, after, rfl, hfirst⟩ := ih hmem
        refine ⟨b :: before, after, rfl, ?_⟩
        rw [List.map_cons, List.mem_cons, not_or]
        exact ⟨of_decide_eq_true hne, hfirst⟩
  · rintro ⟨before, after, rfl, hfirst⟩
    rw [firsts_append]
    refine List.mem_append_right _ (List.mem_filter.mpr ⟨List.mem_cons_self, ?_⟩)
    exact decide_eq_true hfirst

/-- All are kept exactly if their keys differ. -/
theorem firsts_eq_self_iff {as : List α} : firsts key as = as ↔ (as.map key).Nodup := by
  constructor
  · intro h
    exact h ▸ nodup_map_firsts key as
  · intro h
    refine (firsts_sublist key as).eq_of_length ?_
    rw [length_firsts, List.toFinset_card_of_nodup h, List.length_map]

/-! ### Objects side by side -/

theorem nameExists_iff [Named α] {xs : List α} {name : String} :
    nameExists xs name = true ↔ name ∈ xs.map Named.name := by
  simp [nameExists, named?]

/-- An object comes last in its row, unless its name is taken. -/
theorem addUnique_eq [Named α] (xs : List α) (x : α) : addUnique xs x =
    if Named.name x ∈ xs.map Named.name then
      (xs, [.duplicateName (Named.kind α) (Named.name x)])
    else
      (xs ++ [x], []) := by
  simp only [addUnique, nameExists_iff]

end Scene

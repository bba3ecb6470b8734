/-
What a walk follows.

Main statements: a walk follows a trail and ends for the reason that it gives
(`explores_explore`), and it goes through nothing twice and through nothing
that was settled or visited before (`nodup_trail_explore`).  A single walk is
one with nothing settled, so one induction, on the measure of the recursion,
covers both kinds.
-/
import Scene.Frames.Walk
import Scene.Proofs.Frames.Trail

namespace Scene

variable {n : Nat} {next : Fin n → Step n} {settled visited : List (Fin n)}

/-- The position that a step leads to. -/
def Step.target? : Step n → Option (Fin n)
  | .to j => some j
  | _ => none

/-- The position that comes next. -/
def following (next : Fin n → Step n) (i : Fin n) : Option (Fin n) := (next i).target?

@[simp] theorem following_eq_some_iff {i j : Fin n} :
    following next i = some j ↔ next i = .to j := by
  rcases h : next i with - | name | k <;> simp [following, Step.target?, h]

/-- A walk from `i` that follows a trail, with the reason for its end. -/
inductive Explores (next : Fin n → Step n) (settled visited : List (Fin n)) (i : Fin n) :
    Walk n → Prop
  | stopped {js : List (Fin n)} {k : Fin n} :
      Trail (following next) i js k → next k = .stop →
      Explores next settled visited i ⟨js ++ [k], .stopped⟩
  | missing {js : List (Fin n)} {k : Fin n} {name : String} :
      Trail (following next) i js k → next k = .missing name →
      Explores next settled visited i ⟨js ++ [k], .missing k name⟩
  | back {js : List (Fin n)} {k : Fin n} :
      Trail (following next) i js k → k ∈ js ∨ k ∈ visited →
      Explores next settled visited i ⟨js, .back k⟩
  | known {js : List (Fin n)} {k : Fin n} :
      Trail (following next) i js k → k ∈ settled →
      Explores next settled visited i ⟨js, .known⟩

theorem Explores.cons {i j : Fin n} {w : Walk n} (hstep : next i = .to j)
    (h : Explores next settled (i :: visited) j w) :
    Explores next settled visited i (w.cons i) := by
  have hnext : following next i = some j := following_eq_some_iff.mpr hstep
  cases h with
  | stopped htrail hk => exact .stopped (.cons hnext htrail) hk
  | missing htrail hk => exact .missing (.cons hnext htrail) hk
  | back htrail hk =>
    refine .back (.cons hnext htrail) ?_
    simp only [List.mem_cons] at hk ⊢
    tauto
  | known htrail hk => exact .known (.cons hnext htrail) hk

/-- A walk follows a trail and ends for the reason that it gives. -/
theorem explores_explore (next : Fin n → Step n) (settled visited : List (Fin n)) (i : Fin n) :
    Explores next settled visited i (explore next settled visited i) := by
  fun_induction explore next settled visited i with
  | case1 visited i hsettled => exact .known (.nil i) (List.contains_iff_mem.mp hsettled)
  | case2 visited i _ hvisited => exact .back (.nil i) (.inr (List.contains_iff_mem.mp hvisited))
  | case3 visited i _ _ hstop => exact .stopped (.nil i) hstop
  | case4 visited i _ _ name hmissing => exact .missing (.nil i) hmissing
  | case5 visited i _ _ j hto ih => exact .cons hto ih

/-- A walk goes through no position twice, and through none that was settled
or visited before. -/
theorem nodup_trail_explore (next : Fin n → Step n) (settled visited : List (Fin n)) (i : Fin n) :
    (explore next settled visited i).trail.Nodup ∧
      ∀ j ∈ (explore next settled visited i).trail, j ∉ settled ∧ j ∉ visited := by
  fun_induction explore next settled visited i with
  | case1 => simp
  | case2 => simp
  | case3 visited i hsettled hvisited => simp_all
  | case4 visited i hsettled hvisited => simp_all
  | case5 visited i hsettled hvisited j hto ih =>
    simp only [List.contains_eq_mem, decide_eq_true_eq, decide_eq_false_iff_not]
      at hsettled hvisited
    -- the rest of the walk counts `i` as visited, so it does not come here again
    obtain ⟨hnodup, hfresh⟩ := ih
    simp only [Walk.cons, List.nodup_cons, List.forall_mem_cons]
    refine ⟨⟨fun hi => ?_, hnodup⟩, ⟨hsettled, hvisited⟩, ?_⟩
    · exact (hfresh i hi).2 List.mem_cons_self
    · intro k hk
      obtain ⟨hk, hk'⟩ := hfresh k hk
      exact ⟨hk, fun h => hk' (List.mem_cons_of_mem i h)⟩

/-- A single walk is one with nothing settled. -/
theorem walk_eq_explore (i : Fin n) : walk next visited i = explore next [] visited i := by
  -- the recursion is the same one, case by case; no position is in an empty list
  fun_induction walk next visited i with
  | case1 visited i hvisited =>
    rw [explore, if_neg (by simp)]
    split <;> simp_all
  | case2 visited i hvisited hstop =>
    rw [explore, if_neg (by simp)]
    split <;> simp_all
  | case3 visited i hvisited name hmissing =>
    rw [explore, if_neg (by simp)]
    split <;> simp_all
  | case4 visited i hvisited j hto ih =>
    rw [explore, if_neg (by simp)]
    split <;> simp_all

end Scene

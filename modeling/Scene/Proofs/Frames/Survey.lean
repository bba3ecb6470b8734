/-
What a survey finds.

A survey walks from one start after the other and never goes where it went
before.  It may drop what it settled because a settled list is closed under
references: a loop that meets it lies in it altogether, and was found when it
was settled.  So the positions that the walks cover, one after the other,
have no loop in common, and the findings of each walk can be put side by side.

Main statement: a survey covers what can be reached from its starts, and finds
each missing reference there once and each loop there once (`finds_survey`).
-/
import Scene.Proofs.Frames.Walk

namespace Scene

variable {n : Nat} {next : Fin n → Step n} {settled : List (Fin n)}

/-! ### Findings of some positions -/

/-- What is missing at a position. -/
def missingAt (next : Fin n → Step n) (i : Fin n) : Option (Finding n) :=
  match next i with
  | .missing name => some (.missing i name)
  | _ => none

/-- The finding of a loop, which ends where it begins. -/
def Finding.ofLoop (c : List (Fin n)) : Finding n := .loop (c ++ c.take 1)

/-- Findings are those of some positions: each missing reference once, and each
of the loops once. -/
structure Finds (next : Fin n → Step n) (covered : List (Fin n)) (findings : List (Finding n))
    (loops : List (List (Fin n))) : Prop where
  perm : findings.Perm (covered.filterMap (missingAt next) ++ loops.map Finding.ofLoop)
  isLoop : ∀ c ∈ loops, IsLoop (following next) c ∧ ∀ i ∈ c, i ∈ covered
  complete : ∀ c, IsLoop (following next) c → (∀ i ∈ c, i ∈ covered) → ∃ c' ∈ loops, c ~r c'
  distinct : loops.Pairwise fun c c' => ¬ c ~r c'

/-- References do not lead out of a list of positions. -/
def IsClosed (next : Fin n → Step n) (is : List (Fin n)) : Prop :=
  ∀ i j, i ∈ is → following next i = some j → j ∈ is

/-- Where a walk goes on, nothing is missing. -/
theorem missingAt_eq_none {i j : Fin n} (h : following next i = some j) :
    missingAt next i = none := by
  rw [following_eq_some_iff] at h
  rw [missingAt, h]

/-- Where a walk goes on from everywhere, nothing is missing. -/
theorem filterMap_missingAt_eq_nil {is : List (Fin n)}
    (h : ∀ i ∈ is, ∃ j, following next i = some j) : is.filterMap (missingAt next) = [] := by
  rw [List.filterMap_eq_nil_iff]
  intro i hi
  obtain ⟨j, hj⟩ := h i hi
  exact missingAt_eq_none hj

/-- A loop that shares something with a list that no loop crosses the border of
lies in it. -/
theorem IsLoop.subset_of_closed {c is : List (Fin n)} (h : IsLoop (following next) c)
    (his : IsClosed next is) {i : Fin n} (hi : i ∈ c) (hi' : i ∈ is) : ∀ j ∈ c, j ∈ is := by
  obtain ⟨bs, hrot, htrail, -⟩ := h.exists_isRotated hi
  obtain ⟨-, hbs⟩ := htrail.mem_of_closed his hi'
  intro j hj
  exact hbs j (hrot.mem_iff.mp hj)

/-- Findings of positions that have no loop in common can be put together. -/
theorem Finds.append {cov cov' : List (Fin n)} {fs fs' : List (Finding n)}
    {loops loops' : List (List (Fin n))} (h : Finds next cov fs loops)
    (h' : Finds next cov' fs' loops') (hdisj : ∀ i ∈ cov, i ∉ cov')
    (hone : ∀ c, IsLoop (following next) c → (∀ i ∈ c, i ∈ cov ++ cov') →
      (∀ i ∈ c, i ∈ cov) ∨ ∀ i ∈ c, i ∈ cov') :
    Finds next (cov ++ cov') (fs ++ fs') (loops ++ loops') where
  perm := by
    rw [List.filterMap_append, List.map_append]
    -- only the order differs: here the missing references of both come first
    apply (h.perm.append h'.perm).trans
    rw [List.append_assoc, List.append_assoc]
    apply List.Perm.append_left _
    rw [← List.append_assoc, ← List.append_assoc]
    exact List.Perm.append_right _ List.perm_append_comm
  isLoop := by
    intro c hc
    rcases List.mem_append.mp hc with hc | hc
    · obtain ⟨hloop, hsub⟩ := h.isLoop c hc
      exact ⟨hloop, fun i hi => List.mem_append_left _ (hsub i hi)⟩
    · obtain ⟨hloop, hsub⟩ := h'.isLoop c hc
      exact ⟨hloop, fun i hi => List.mem_append_right _ (hsub i hi)⟩
  complete := by
    intro c hloop hsub
    -- by `hone` a loop of both lies in one of them
    rcases hone c hloop hsub with hsub | hsub
    · obtain ⟨c', hc', hrot⟩ := h.complete c hloop hsub
      exact ⟨c', List.mem_append_left _ hc', hrot⟩
    · obtain ⟨c', hc', hrot⟩ := h'.complete c hloop hsub
      exact ⟨c', List.mem_append_right _ hc', hrot⟩
  distinct := by
    rw [List.pairwise_append]
    refine ⟨h.distinct, h'.distinct, ?_⟩
    intro c hc c' hc' hrot
    obtain ⟨⟨i, hne, htrail, -⟩, hsub⟩ := h.isLoop c hc
    -- two loops that are the same one would share their start
    have hi : i ∈ c := by
      cases htrail with
      | nil => exact absurd rfl hne
      | cons => exact List.mem_cons_self
    exact hdisj i (hsub i hi) ((h'.isLoop c' hc').2 i (hrot.mem_iff.mp hi))

/-! ### One walk -/

/-- The end of a trail lies on every loop that the trail meets. -/
theorem IsLoop.mem_end {c js : List (Fin n)} {i k j : Fin n} (h : IsLoop (following next) c)
    (htrail : Trail (following next) i js k) (hj : j ∈ c) (hj' : j ∈ js) : k ∈ c := by
  obtain ⟨ls, rs, rfl, -, hrs⟩ := htrail.split hj'
  exact h.mem_of_trail hj hrs

/-- Where a walk comes to an end, it went through no loop. -/
theorem not_isLoop_of_end {c js : List (Fin n)} {i k : Fin n}
    (htrail : Trail (following next) i js k) (hend : following next k = none)
    (hsub : ∀ j ∈ c, j ∈ js ++ [k]) : ¬ IsLoop (following next) c := by
  intro hloop
  obtain ⟨j, hj⟩ := hloop.exists_mem
  have hk : k ∈ c := by
    rcases List.mem_append.mp (hsub j hj) with hj' | hj'
    · exact hloop.mem_end htrail hj hj'
    · rw [List.mem_singleton] at hj'
      exact hj' ▸ hj
  obtain ⟨m, hm⟩ := hloop.exists_next hk
  rw [hend] at hm
  cases hm

/-- Nothing is missing along a trail. -/
theorem filterMap_missingAt_trail {js : List (Fin n)} {i k : Fin n}
    (htrail : Trail (following next) i js k) : js.filterMap (missingAt next) = [] :=
  filterMap_missingAt_eq_nil fun _ hj => htrail.exists_next hj

/-- Findings of a walk that went through no loop. -/
theorem finds_of_no_loop {covered : List (Fin n)} {findings : List (Finding n)}
    (hperm : findings = covered.filterMap (missingAt next))
    (hno : ∀ c, (∀ i ∈ c, i ∈ covered) → ¬ IsLoop (following next) c) :
    Finds next covered findings [] where
  perm := by rw [hperm, List.map_nil, List.append_nil]
  isLoop := by simp
  complete := fun c hloop hsub => absurd hloop (hno c hsub)
  distinct := .nil

/-- The findings of a walk that came back. -/
theorem finds_of_back {js : List (Fin n)} {i k : Fin n}
    (htrail : Trail (following next) i js k) (hk : k ∈ js) (hnodup : js.Nodup) :
    ∃ c, Finds next js (Walk.findings ⟨js, .back k⟩) [c] := by
  obtain ⟨ls, rs, rfl, hls, hrs⟩ := htrail.split hk
  -- what is dropped is the way to where the loop is entered
  have hrest : (ls ++ k :: rs).dropWhile (fun j => j != k) = k :: rs := by
    rw [List.dropWhile_append_of_pos, List.dropWhile_cons_of_neg (by simp)]
    intro j hj
    rw [bne_iff_ne]
    exact (List.nodup_append.mp hnodup).2.2 j hj k List.mem_cons_self
  have hloop : IsLoop (following next) (k :: rs) :=
    ⟨k, List.cons_ne_nil _ _, hrs, (List.nodup_append.mp hnodup).2.1⟩
  refine ⟨k :: rs, ?_, ?_, ?_, List.pairwise_singleton _ _⟩
  · rw [filterMap_missingAt_trail htrail]
    simp only [Walk.findings, hrest]
    exact .refl _
  · intro c hc
    rw [List.mem_singleton.mp hc]
    exact ⟨hloop, fun j hj => List.mem_append_right _ hj⟩
  -- a loop within the walk leads to its end, and so shares that with the one found
  · intro c hc hsub
    obtain ⟨j, hj⟩ := hc.exists_mem
    exact ⟨k :: rs, List.mem_singleton_self _,
      hc.isRotated_of_mem hloop (hc.mem_end htrail hj (hsub j hj)) List.mem_cons_self⟩

/-- From where a walk stops, nothing follows. -/
theorem following_eq_none_of_stop {k : Fin n} (h : next k = .stop) : following next k = none := by
  rw [following, h]
  rfl

/-- From where a walk is lost, nothing follows. -/
theorem following_eq_none_of_missing {k : Fin n} {name : String} (h : next k = .missing name) :
    following next k = none := by
  rw [following, h]
  rfl

/-- A walk finds what is wrong with the positions it goes through. -/
theorem finds_explore (next : Fin n → Step n) (settled : List (Fin n)) (start : Fin n) :
    ∃ loops, Finds next (explore next settled [] start).trail
      (explore next settled [] start).findings loops := by
  obtain ⟨hnodup, hfresh⟩ := nodup_trail_explore next settled [] start
  generalize hw : explore next settled [] start = w at hnodup hfresh
  cases hw ▸ explores_explore next settled [] start with
  | @stopped js k htrail hk =>
    refine ⟨[], finds_of_no_loop ?_ fun c hsub =>
      not_isLoop_of_end htrail (following_eq_none_of_stop hk) hsub⟩
    rw [List.filterMap_append, filterMap_missingAt_trail htrail]
    simp [Walk.findings, missingAt, hk]
  | @missing js k name htrail hk =>
    refine ⟨[], finds_of_no_loop ?_ fun c hsub =>
      not_isLoop_of_end htrail (following_eq_none_of_missing hk) hsub⟩
    rw [List.filterMap_append, filterMap_missingAt_trail htrail]
    simp [Walk.findings, missingAt, hk]
  | @back js k htrail hk =>
    obtain ⟨c, hc⟩ := finds_of_back htrail (by simpa using hk) hnodup
    exact ⟨[c], hc⟩
  | @known js k htrail hk =>
    refine ⟨[], finds_of_no_loop ?_ fun c hsub hloop => ?_⟩
    · rw [filterMap_missingAt_trail htrail]
      rfl
    · -- a loop on the way would go on into what is settled
      obtain ⟨j, hj⟩ := hloop.exists_mem
      exact (hfresh k (hsub k (hloop.mem_end htrail hj (hsub j hj)))).1 hk

/-- The trail of a walk, and where it leads: to something covered or settled. -/
theorem exists_trail_explore (next : Fin n → Step n) (settled : List (Fin n)) (start : Fin n) :
    ∃ js k, Trail (following next) start js k ∧
      k ∈ (explore next settled [] start).trail ++ settled ∧
      ((explore next settled [] start).trail = js ∨
        (explore next settled [] start).trail = js ++ [k] ∧ following next k = none) := by
  generalize hw : explore next settled [] start = w
  cases hw ▸ explores_explore next settled [] start with
  | @stopped js k htrail hk =>
    exact ⟨js, k, htrail, by simp, .inr ⟨rfl, following_eq_none_of_stop hk⟩⟩
  | @missing js k name htrail hk =>
    exact ⟨js, k, htrail, by simp, .inr ⟨rfl, following_eq_none_of_missing hk⟩⟩
  -- the last position stands on the trail only if the walk did not return to it
  | @back js k htrail hk =>
    exact ⟨js, k, htrail, List.mem_append_left _ (by simpa using hk), .inl rfl⟩
  | @known js k htrail hk => exact ⟨js, k, htrail, List.mem_append_right _ hk, .inl rfl⟩

/-- After exploring, the start is settled. -/
theorem start_mem_explore (next : Fin n → Step n) (settled : List (Fin n)) (start : Fin n) :
    start ∈ (explore next settled [] start).trail ++ settled := by
  obtain ⟨js, k, htrail, hk, h⟩ := exists_trail_explore next settled start
  cases htrail with
  | nil => exact hk
  | cons hstep htrail =>
    apply List.mem_append_left _
    rcases h with h | ⟨h, -⟩
    · rw [h]
      exact List.mem_cons_self
    · rw [h]
      exact List.mem_cons_self

/-- A walk goes only where references lead from its start. -/
theorem reached_explore {start i : Fin n} (hi : i ∈ (explore next settled [] start).trail) :
    ∃ js, Trail (following next) start js i := by
  obtain ⟨js, k, htrail, -, h⟩ := exists_trail_explore next settled start
  have hsub : i ∈ js ∨ i = k := by
    rcases h with h | ⟨h, -⟩
    · exact .inl (h ▸ hi)
    · rw [h, List.mem_append, List.mem_singleton] at hi
      exact hi
  rcases hsub with hi | rfl
  · obtain ⟨ls, -, -, hls, -⟩ := htrail.split hi
    exact ⟨ls, hls⟩
  · exact ⟨js, htrail⟩

/-- What a walk went through can be settled. -/
theorem isClosed_explore (hclosed : IsClosed next settled) (start : Fin n) :
    IsClosed next ((explore next settled [] start).trail ++ settled) := by
  intro i j hi hj
  rcases List.mem_append.mp hi with hi | hi
  · obtain ⟨js, k, htrail, hk, h⟩ := exists_trail_explore next settled start
    -- something leads on from `i`, so it is not an end
    have hjs : i ∈ js := by
      rcases h with h | ⟨h, hend⟩
      · exact h ▸ hi
      · rw [h, List.mem_append, List.mem_singleton] at hi
        rcases hi with hi | rfl
        · exact hi
        · rw [hend] at hj
          cases hj
    obtain ⟨ls, rs, rfl, -, hrs⟩ := htrail.split hjs
    cases hrs with
    | cons hstep hrs =>
      obtain rfl := Option.some.inj (hj.symm.trans hstep)
      -- what follows is on the trail, or the end of it
      cases hrs with
      | nil => exact hk
      | cons =>
        apply List.mem_append_left _
        rcases h with h | ⟨h, -⟩
        · rw [h]
          simp
        · rw [h]
          simp
  · exact List.mem_append_right _ (hclosed i j hi hj)

/-! ### Many walks -/

/-- A loop does not go from one walk into what another one covers later. -/
theorem IsLoop.subset_or_subset {settled trail cov c : List (Fin n)}
    (hclosed : IsClosed next (trail ++ settled)) (hfresh : ∀ i ∈ cov, i ∉ trail ++ settled)
    (hloop : IsLoop (following next) c) (hsub : ∀ j ∈ c, j ∈ trail ++ cov) :
    (∀ j ∈ c, j ∈ trail) ∨ ∀ j ∈ c, j ∈ cov := by
  by_cases hmeet : ∃ i ∈ c, i ∈ trail
  · -- the loop meets the walk, and does not leave what is settled after it
    obtain ⟨i, hi, hi'⟩ := hmeet
    apply Or.inl
    intro j hj
    have hmem := hloop.subset_of_closed hclosed hi (List.mem_append_left _ hi') j hj
    rcases List.mem_append.mp (hsub j hj) with hj' | hj'
    · exact hj'
    · exact absurd hmem (hfresh j hj')
  · apply Or.inr
    intro j hj
    rcases List.mem_append.mp (hsub j hj) with hj' | hj'
    · exact absurd ⟨j, hj, hj'⟩ hmeet
    · exact hj'

/-- **A survey finds what is wrong with everything that its starts lead to**,
each missing reference once and each loop once. -/
theorem finds_survey (next : Fin n → Step n) (settled : List (Fin n))
    (hclosed : IsClosed next settled) (starts : List (Fin n)) :
    ∃ covered loops, Finds next covered (survey next settled starts) loops ∧ covered.Nodup ∧
      (∀ i ∈ covered, i ∉ settled) ∧ IsClosed next (covered ++ settled) ∧
      (∀ s ∈ starts, s ∈ covered ++ settled) ∧
      ∀ i ∈ covered, ∃ s ∈ starts, ∃ js, Trail (following next) s js i := by
  -- from start to start; what is settled grows, and stays closed under references
  induction starts generalizing settled with
  | nil =>
    refine ⟨[], [], ?_, List.nodup_nil, by simp, hclosed, by simp, by simp⟩
    apply finds_of_no_loop rfl
    intro c hsub hloop
    obtain ⟨j, hj⟩ := hloop.exists_mem
    cases hsub j hj
  | cons start starts ih =>
    have hsettled := isClosed_explore hclosed start
    obtain ⟨loops, hfinds⟩ := finds_explore next settled start
    obtain ⟨hnodup, hfresh⟩ := nodup_trail_explore next settled [] start
    obtain ⟨cov, loops', hfinds', hnodup', hfresh', hclosed', hstarts, hreached⟩ := ih _ hsettled
    rw [survey]
    generalize hw : explore next settled [] start = w at *
    -- later walks do not go where this one went
    have hdisj : ∀ i ∈ w.trail, i ∉ cov := fun i hi hi' =>
      hfresh' i hi' (List.mem_append_left _ hi)
    refine ⟨w.trail ++ cov, loops ++ loops', hfinds.append hfinds' hdisj ?_, ?_, ?_, ?_, ?_, ?_⟩
    -- no loop is divided between this walk and the later ones
    · intro c hloop hsub
      exact hloop.subset_or_subset hsettled hfresh' hsub
    -- nothing is covered twice, or was settled before
    · exact List.nodup_append.mpr ⟨hnodup, hnodup', fun i hi j hj hij => hdisj i hi (hij ▸ hj)⟩
    · intro i hi
      rcases List.mem_append.mp hi with hi | hi
      · exact (hfresh i hi).1
      · exact fun h => hfresh' i hi (List.mem_append_right _ h)
    · -- closed is what is settled in the end, in whatever order
      have hperm : (cov ++ (w.trail ++ settled)).Perm (w.trail ++ cov ++ settled) := by
        rw [← List.append_assoc]
        exact List.Perm.append_right _ List.perm_append_comm
      intro i j hi hj
      exact hperm.mem_iff.mp (hclosed' i j (hperm.mem_iff.mpr hi) hj)
    -- a start is on its own walk, or was settled when its turn came
    · intro s hs
      rcases List.mem_cons.mp hs with rfl | hs
      · have := start_mem_explore next settled s
        rw [hw] at this
        simp only [List.mem_append] at this ⊢
        tauto
      · have := hstarts s hs
        simp only [List.mem_append] at this ⊢
        tauto
    · intro i hi
      rcases List.mem_append.mp hi with hi | hi
      · obtain ⟨js, hjs⟩ := reached_explore (hw ▸ hi)
        exact ⟨start, List.mem_cons_self, js, hjs⟩
      · obtain ⟨s, hs, js, hjs⟩ := hreached i hi
        exact ⟨s, List.mem_cons_of_mem _ hs, js, hjs⟩

/-- With nothing settled before, exactly that is covered which the starts lead
to. -/
theorem mem_covered_iff {covered starts : List (Fin n)} (hclosed : IsClosed next covered)
    (hstarts : ∀ s ∈ starts, s ∈ covered)
    (hreached : ∀ i ∈ covered, ∃ s ∈ starts, ∃ js, Trail (following next) s js i) {i : Fin n} :
    i ∈ covered ↔ ∃ s ∈ starts, ∃ js, Trail (following next) s js i := by
  refine ⟨hreached i, ?_⟩
  rintro ⟨s, hs, js, htrail⟩
  exact (htrail.mem_of_closed hclosed (hstarts s hs)).1

end Scene

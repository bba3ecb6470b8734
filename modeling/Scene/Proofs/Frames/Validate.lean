/-
What validation reports.

Validation surveys positions.  Here its findings are put in terms of names
alone: the references that name no frame, and the loops of following
references, each up to where it is entered.  An account lists both without
repetition, and a check reports an account, in some order.

Following references from a frame fails exactly if it comes to something in
the account.  So nothing is reported exactly if every course from where the
check starts comes to rest.

Main statement: `validate_eq_accounts`.
-/
import Scene.Proofs.Frames.AttachedBody
import Scene.Proofs.Frames.PoseInScope
import Scene.Proofs.Frames.Survey

namespace Scene.FrameGraph

variable {R : Type} {g : FrameGraph R} {reference : Vertex R → Option String}

/-! ### Accounts -/

/-- Where references lead from frames of a kind, these frames included. -/
def Reached (g : FrameGraph R) (reference : Vertex R → Option String) (P : Vertex R → Prop)
    (name : String) : Prop :=
  ∃ v ∈ g.vertices, P v ∧ ∃ vs, g.Leads reference v.name vs name

/-- What is wrong with references among some names: who refers to a missing
name, and to which one; and round which loops references go. -/
structure Accounts (g : FrameGraph R) (reference : Vertex R → Option String)
    (among : String → Prop) (lost : List (String × String)) (loops : List (List String)) :
    Prop where
  nodup : (lost.map Prod.fst).Nodup
  lost_iff : ∀ name missing, (name, missing) ∈ lost ↔
    among name ∧ g.follow reference name = some missing ∧ g.vertex? missing = none
  isLoop : ∀ c ∈ loops, IsLoop (g.follow reference) c ∧ ∀ name ∈ c, among name
  complete : ∀ c, IsLoop (g.follow reference) c → (∃ name ∈ c, among name) →
    ∃ c' ∈ loops, c ~r c'
  distinct : loops.Pairwise fun c c' => ¬ c ~r c'

/-- Only names that lead somewhere matter for an account. -/
theorem Accounts.congr {among among' : String → Prop} {lost : List (String × String)}
    {loops : List (List String)} (h : g.Accounts reference among lost loops)
    (hiff : ∀ name next, g.follow reference name = some next → (among name ↔ among' name)) :
    g.Accounts reference among' lost loops where
  nodup := h.nodup
  lost_iff := by
    intro name missing
    rw [h.lost_iff]
    apply and_congr_left
    intro hlost
    exact hiff name missing hlost.1
  isLoop := by
    intro c hc
    obtain ⟨hloop, hamong⟩ := h.isLoop c hc
    refine ⟨hloop, ?_⟩
    intro name hname
    -- something leads on from every name of a loop, so `hiff` applies to it
    obtain ⟨next, hnext⟩ := hloop.exists_next hname
    exact (hiff name next hnext).mp (hamong name hname)
  complete := by
    rintro c hloop ⟨name, hname, hamong⟩
    obtain ⟨next, hnext⟩ := hloop.exists_next hname
    exact h.complete c hloop ⟨name, hname, (hiff name next hnext).mpr hamong⟩
  distinct := h.distinct

/-! ### Loops of names and of positions -/

/-- A trail of names that ends at a frame is one of positions. -/
theorem exists_trail_of_names (hg : g.Indexed) {name last : String} {names : List String}
    (h : Trail (g.follow reference) name names last) {k : Fin g.vertices.size}
    (hk : g.nameAt k = last) :
    ∃ i js, g.nameAt i = name ∧ g.namesAt js = names ∧
      Trail (following (g.stepBy reference)) i js k := by
  -- from the end, which has a position; each name before it leads on, so it has one too
  induction h with
  | nil a => exact ⟨k, [], hk, rfl, .nil k⟩
  | @cons a b c names hstep _ ih =>
    obtain ⟨j, js, rfl, rfl, htrail⟩ := ih hk
    obtain ⟨v, hv, rfl, hnext⟩ := (follow_eq_some_iff hg).mp hstep
    obtain ⟨i, hi, rfl⟩ := Array.mem_iff_getElem.mp hv
    refine ⟨⟨i, hi⟩, ⟨i, hi⟩ :: js, rfl, rfl, .cons ?_ htrail⟩
    exact following_eq_some_iff.mpr (stepBy_of_nameAt hg (i := ⟨i, hi⟩) hnext)

theorem isLoop_namesAt (hg : g.Indexed) {js : List (Fin g.vertices.size)}
    (h : IsLoop (following (g.stepBy reference)) js) :
    IsLoop (g.follow reference) (g.namesAt js) := by
  obtain ⟨k, hne, htrail, hnodup⟩ := h
  refine ⟨g.nameAt k, ?_, htrail.map g.nameAt fun _ _ => follow_nameAt hg,
    hnodup.map hg.nameAt_injective⟩
  simpa [namesAt] using hne

/-- Every loop of names is one of positions. -/
theorem exists_loop_of_names (hg : g.Indexed) {c : List String}
    (h : IsLoop (g.follow reference) c) :
    ∃ js, g.namesAt js = c ∧ IsLoop (following (g.stepBy reference)) js := by
  obtain ⟨name, hne, htrail, hnodup⟩ := h
  -- the loop begins and ends at a frame, for something leads on from it
  obtain ⟨k, rfl⟩ : ∃ k, g.nameAt k = name := by
    cases htrail with
    | nil => exact absurd rfl hne
    | cons hstep =>
      obtain ⟨v, hv, rfl, -⟩ := (follow_eq_some_iff hg).mp hstep
      obtain ⟨k, hk, rfl⟩ := Array.mem_iff_getElem.mp hv
      exact ⟨⟨k, hk⟩, rfl⟩
  obtain ⟨i, js, hi, rfl, hjs⟩ := exists_trail_of_names hg htrail rfl
  obtain rfl := hg.nameAt_injective hi
  refine ⟨js, rfl, i, ?_, hjs, List.Nodup.of_map _ hnodup⟩
  simpa [namesAt] using hne

theorem isRotated_of_namesAt (hg : g.Indexed) {js ks : List (Fin g.vertices.size)}
    (h : g.namesAt js ~r g.namesAt ks) : js ~r ks := by
  obtain ⟨n, hn⟩ := h
  refine ⟨n, hg.nameAt_injective.list_map ?_⟩
  rw [List.map_rotate]
  exact hn

theorem reached_nameAt_iff (hg : g.Indexed) {P : Vertex R → Prop} {k : Fin g.vertices.size} :
    g.Reached reference P (g.nameAt k) ↔
      ∃ i, P (g.vertexAt i) ∧ ∃ js, Trail (following (g.stepBy reference)) i js k := by
  constructor
  · rintro ⟨v, hv, hP, vs, htrail, -⟩
    obtain ⟨i, js, hi, -, hjs⟩ := exists_trail_of_names hg htrail rfl
    refine ⟨i, ?_, js, hjs⟩
    -- the trail starts at the frame itself, since names tell frames apart
    have hfound := vertex?_nameAt hg i
    rw [hi, hg.vertex?_name hv] at hfound
    exact Option.some.inj hfound ▸ hP
  · rintro ⟨i, hP, js, hjs⟩
    exact ⟨g.vertexAt i, Array.getElem_mem i.isLt, hP, _, leads_of_trail hg hjs⟩

/-! ### A survey gives an account -/

/-- A reference of the frame at a position that names nothing. -/
def lostAt (g : FrameGraph R) (reference : Vertex R → Option String)
    (i : Fin g.vertices.size) : Option (String × String) :=
  match g.stepBy reference i with
  | .missing name => some (g.nameAt i, name)
  | _ => none

theorem lostAt_eq_some_iff (hg : g.Indexed) {i : Fin g.vertices.size} {name missing : String} :
    g.lostAt reference i = some (name, missing) ↔
      g.nameAt i = name ∧ g.follow reference name = some missing ∧ g.vertex? missing = none := by
  have hfollow : g.follow reference (g.nameAt i) = reference (g.vertexAt i) := by
    rw [follow, vertex?_nameAt hg, Option.bind_some]
  constructor
  · intro h
    unfold lostAt at h
    split at h
    · rename_i m hm
      cases h
      obtain ⟨href, hmiss⟩ := reference_of_missing hg hm
      exact ⟨rfl, hfollow.trans href, hmiss⟩
    · cases h
  · rintro ⟨rfl, hnext, hmiss⟩
    rw [hfollow] at hnext
    rw [lostAt, stepBy_of_missing hnext hmiss]

theorem nodup_lostAt (hg : g.Indexed) {is : List (Fin g.vertices.size)} (h : is.Nodup) :
    ((is.filterMap (g.lostAt reference)).map Prod.fst).Nodup := by
  -- one reference for each position at most, in the order of the positions
  have hsub : ((is.filterMap (g.lostAt reference)).map Prod.fst).Sublist (g.namesAt is) := by
    induction is with
    | nil => exact .refl _
    | cons i is ih =>
      have ih := ih (List.nodup_cons.mp h).2
      rw [List.filterMap_cons]
      split
      · exact ih.cons _
      · rename_i p hp
        obtain ⟨hname, -⟩ := (lostAt_eq_some_iff hg).mp hp
        rw [List.map_cons, ← hname]
        exact ih.cons_cons _
  exact hsub.nodup (h.map hg.nameAt_injective)

/-- What is found at the positions that frames of a kind lead to is an account
of the names that they reach. -/
theorem accounts_of_finds (hg : g.Indexed) {P : Vertex R → Prop}
    {covered : List (Fin g.vertices.size)} {findings : List (Finding g.vertices.size)}
    {loops : List (List (Fin g.vertices.size))}
    (hfinds : Finds (g.stepBy reference) covered findings loops) (hnodup : covered.Nodup)
    (hclosed : IsClosed (g.stepBy reference) covered)
    (hamong : ∀ k, g.Reached reference P (g.nameAt k) ↔ k ∈ covered) :
    g.Accounts reference (g.Reached reference P) (covered.filterMap (g.lostAt reference))
      (loops.map g.namesAt) where
  nodup := nodup_lostAt hg hnodup
  -- a position that is covered, and a name that is reached
  lost_iff := by
    intro name missing
    rw [List.mem_filterMap]
    constructor
    · rintro ⟨i, hi, hlostAt⟩
      obtain ⟨rfl, hfollow⟩ := (lostAt_eq_some_iff hg).mp hlostAt
      exact ⟨(hamong i).mpr hi, hfollow⟩
    · rintro ⟨hname, hfollow⟩
      obtain ⟨v, hv, rfl, -⟩ := (follow_eq_some_iff hg).mp hfollow.1
      obtain ⟨i, hi, rfl⟩ := Array.mem_iff_getElem.mp hv
      exact ⟨⟨i, hi⟩, (hamong ⟨i, hi⟩).mp hname, (lostAt_eq_some_iff hg).mpr ⟨rfl, hfollow⟩⟩
  isLoop := by
    intro c hc
    obtain ⟨js, hjs, rfl⟩ := List.mem_map.mp hc
    obtain ⟨hjs, hsub⟩ := hfinds.isLoop js hjs
    refine ⟨isLoop_namesAt hg hjs, ?_⟩
    intro name hname
    obtain ⟨i, hi, rfl⟩ := List.mem_map.mp hname
    exact (hamong i).mpr (hsub i hi)
  complete := by
    rintro c hc ⟨name, hname, hmem⟩
    obtain ⟨js, rfl, hjs⟩ := exists_loop_of_names hg hc
    obtain ⟨i, hi, rfl⟩ := List.mem_map.mp hname
    -- a loop that is covered at one position is covered all round
    obtain ⟨js', hjs', hrot⟩ := hfinds.complete js hjs
      (hjs.subset_of_closed hclosed hi ((hamong i).mp hmem))
    exact ⟨g.namesAt js', List.mem_map_of_mem hjs', hrot.map _⟩
  distinct := by
    rw [List.pairwise_map]
    exact hfinds.distinct.imp fun h hrot => h (isRotated_of_namesAt hg hrot)

/-- A survey from the frames of a kind gives an account of what they reach. -/
theorem exists_accounts_survey (hg : g.Indexed) (reference : Vertex R → Option String)
    {P : Vertex R → Prop} {starts : List (Fin g.vertices.size)}
    (hstarts : ∀ i, i ∈ starts ↔ P (g.vertexAt i)) (report : Finding g.vertices.size → Error)
    (onLost : String × String → Error) (onLoop : List String → Error)
    (hlost : ∀ i name, report (.missing i name) = onLost (g.nameAt i, name))
    (hloop : ∀ is, report (.loop is) = onLoop (g.namesAt is)) :
    ∃ lost loops, g.Accounts reference (g.Reached reference P) lost loops ∧
      ((survey (g.stepBy reference) [] starts).map report).Perm
        (lost.map onLost ++ loops.map fun c => onLoop (c ++ c.take 1)) := by
  obtain ⟨covered, loops, hfinds, hnodup, -, hclosed, hcovers, hreached⟩ :=
    finds_survey (g.stepBy reference) [] (by intro _ _ h; cases h) starts
  rw [List.append_nil] at hclosed hcovers
  -- what is covered is what is reached, by name
  have hamong (k : Fin g.vertices.size) : g.Reached reference P (g.nameAt k) ↔ k ∈ covered := by
    rw [reached_nameAt_iff hg, mem_covered_iff hclosed hcovers hreached]
    simp only [hstarts]
  refine ⟨covered.filterMap (g.lostAt reference), loops.map g.namesAt,
    accounts_of_finds hg hfinds hnodup hclosed hamong, (hfinds.perm.map report).trans ?_⟩
  rw [List.map_append, List.map_filterMap, List.map_filterMap, List.map_map, List.map_map]
  -- both lists are in the order of the survey, so only their entries are compared
  refine .of_eq (congrArg₂ (· ++ ·) ?_ ?_)
  · apply List.filterMap_congr
    intro i _
    unfold missingAt lostAt
    rcases g.stepBy reference i with - | name | j
    · rfl
    · simp only [Option.map_some, hlost]
    · rfl
  · apply List.map_congr_left
    intro c _
    simp only [Function.comp_apply, Finding.ofLoop, hloop]
    simp [namesAt]

/-! ### Nothing to report -/

/-- The last reference on the way to a missing name. -/
theorem Leads.exists_last {name last : String} {vs : List (Vertex R)}
    (h : g.Leads reference name vs last) (hvs : vs ≠ []) :
    ∃ us, ∃ u : Vertex R, g.Leads reference name us u.name ∧
      g.follow reference u.name = some last := by
  rcases List.eq_nil_or_concat vs with rfl | ⟨us, u, rfl⟩
  · exact absurd rfl hvs
  · rw [List.concat_eq_append] at h
    obtain ⟨htrail, hmem⟩ := h
    rw [List.map_append] at htrail
    obtain ⟨mid, hus, hu⟩ := htrail.of_append
    obtain rfl := hu.head_eq
    refine ⟨us, u, ⟨hus, fun v hv => hmem v (List.mem_append_left _ hv)⟩, ?_⟩
    cases hu with
    | cons hnext hend => exact hend.eq_of_nil ▸ hnext

/-- The loop that a course goes into when it comes back. -/
theorem Takes.exists_loop {name last : String} {vs : List (Vertex R)}
    (h : g.Takes reference name (.returns vs last)) :
    ∃ us c, g.Leads reference name us last ∧ IsLoop (g.follow reference) c ∧ last ∈ c := by
  obtain ⟨hlead, hnodup, hmem⟩ := h
  obtain ⟨v, hv, rfl⟩ := List.mem_map.mp hmem
  obtain ⟨us, ws, rfl, hus, hround⟩ := hlead.split hv
  rw [List.map_append] at hnodup
  exact ⟨us, (v :: ws).map Vertex.name, hus,
    ⟨v.name, List.cons_ne_nil _ _, hround, (List.nodup_append.mp hnodup).2.1⟩,
    List.mem_cons_self⟩

/-- With nothing in the account, every course from where it starts comes to
rest. -/
theorem Accounts.exists_rests (hg : g.Indexed) {P : Vertex R → Prop}
    (h : g.Accounts reference (g.Reached reference P) [] []) {v : Vertex R}
    (hv : v ∈ g.vertices) (hP : P v) : ∃ vs w, g.Takes reference v.name (.rests vs w) := by
  obtain ⟨c, hc⟩ := exists_takes hg reference v.name
  cases c with
  | rests vs w => exact ⟨vs, w, hc⟩
  | lost vs last =>
    obtain ⟨hlead, hmiss⟩ := hc
    have hvs : vs ≠ [] := by
      rintro rfl
      -- the frame of the start is not missing
      rw [hlead.1.eq_of_nil, hg.vertex?_name hv] at hmiss
      cases hmiss
    -- so there is a frame that refers to the missing name, which the account would list
    obtain ⟨us, u, hus, hnext⟩ := hlead.exists_last hvs
    have hmem := (h.lost_iff u.name last).mpr ⟨⟨v, hv, hP, us, hus⟩, hnext, hmiss⟩
    cases hmem
  -- the course goes into a loop, which the account would list
  | returns vs last =>
    obtain ⟨us, c, hus, hc, hlast⟩ := hc.exists_loop
    obtain ⟨c', hc', -⟩ := h.complete c hc ⟨last, hlast, v, hv, hP, us, hus⟩
    cases hc'

/-- If every course from some frames comes to rest, then what they reach is on a
way from a start that also has an end. -/
theorem Reached.exists_end (hg : g.Indexed) {P : Vertex R → Prop} {name : String}
    (hrests : ∀ v ∈ g.vertices, P v → ∃ vs w, g.Takes reference v.name (.rests vs w))
    (h : g.Reached reference P name) :
    ∃ start vs names last, g.Leads reference start vs name ∧
      Trail (g.follow reference) start names last ∧ g.follow reference last = none ∧
      (g.vertex? last).isSome = true := by
  obtain ⟨v, hv, hP, vs, hlead⟩ := h
  obtain ⟨us, w, hrest, hw, hnone⟩ := hrests v hv hP
  refine ⟨v.name, vs, us.map Vertex.name, w.name, hlead, hrest.1, ?_, ?_⟩
  · exact (follow_name hg hw).trans hnone
  · rw [hg.vertex?_name hw]
    rfl

/-- An account is empty exactly if every course from where it starts comes to
rest. -/
theorem Accounts.eq_nil_iff (hg : g.Indexed) {P : Vertex R → Prop}
    {lost : List (String × String)} {loops : List (List String)}
    (h : g.Accounts reference (g.Reached reference P) lost loops) :
    (lost = [] ∧ loops = []) ↔
      ∀ v ∈ g.vertices, P v → ∃ vs w, g.Takes reference v.name (.rests vs w) := by
  constructor
  · rintro ⟨rfl, rfl⟩ v hv hP
    exact h.exists_rests hg hv hP
  · intro hrests
    constructor
    · apply List.eq_nil_iff_forall_not_mem.mpr
      rintro ⟨name, missing⟩ hmem
      obtain ⟨hreached, hnext, hmiss⟩ := (h.lost_iff name missing).mp hmem
      obtain ⟨start, vs, names, last, hlead, hrest, hend, hsome⟩ := hreached.exists_end hg hrests
      -- the way to the missing name ends where the course rests
      obtain ⟨-, rfl⟩ := hrest.unique_of_end (hlead.1.append (.single hnext)) hend
        (follow_eq_none_of_missing hmiss)
      rw [hmiss] at hsome
      cases hsome
    · apply List.eq_nil_iff_forall_not_mem.mpr
      intro c hc
      obtain ⟨hloop, hreached⟩ := h.isLoop c hc
      obtain ⟨name, hname⟩ := hloop.exists_mem
      obtain ⟨start, vs, names, last, hlead, hrest, hend, -⟩ :=
        (hreached name hname).exists_end hg hrests
      -- the way into the loop and round it passes the same name twice
      obtain ⟨bs, -, hround, -⟩ := hloop.exists_isRotated hname
      exact hrest.not_mem_of_end hend (hlead.1.append hround)
        (List.mem_append_right _ List.mem_cons_self)

/-! ### The two checks -/

/-- The error of a `relativeTo`, by the name of the frame that has it. -/
def lostRelative (reference : String × String) : Error :=
  .frameNotFound reference.2 s!"relative_to of [{reference.1}]"

/-- The error of an `attachedTo`, by the name of the frame that has it. -/
def lostAttached (g : FrameGraph R) (reference : String × String) : Error :=
  g.attachedMissing reference.2

/-- A loop as it is reported, with its first name once more at the end. -/
def closed (loop : List String) : List String := loop ++ loop.take 1

/-- A frame whose `attachedTo` is checked for its own sake. -/
def Attachable (v : Vertex R) : Prop := v.kind = .frame ∨ v.kind = .scope

theorem exists_accounts_relative (hg : g.Indexed) :
    ∃ lost loops, g.Accounts g.relativeReference (g.Reached g.relativeReference fun _ => True)
        lost loops ∧
      g.relativeErrors.Perm (lost.map lostRelative ++ loops.map fun c => .poseCycle (closed c)) :=
  exists_accounts_survey hg _ (by simp) g.relativeError lostRelative .poseCycle
    (fun _ _ => rfl) fun _ => rfl

theorem exists_accounts_attached (hg : g.Indexed) :
    ∃ lost loops, g.Accounts g.attachedReference (g.Reached g.attachedReference Attachable)
        lost loops ∧
      g.attachedErrors.Perm
        (lost.map g.lostAttached ++ loops.map fun c => .attachedToCycle (closed c)) :=
  exists_accounts_survey hg _ (by simp [isAttachable, Attachable]) g.attachedError g.lostAttached
    .attachedToCycle (fun _ _ => rfl) fun _ => rfl

/-- Errors that are those of an account are none exactly if it is empty. -/
theorem eq_nil_iff_of_perm {lost : List (String × String)} {loops : List (List String)}
    {errors : Errors} {onLost : String × String → Error} {onLoop : List String → Error}
    (h : errors.Perm (lost.map onLost ++ loops.map onLoop)) :
    errors = [] ↔ lost = [] ∧ loops = [] := by
  constructor
  · rintro rfl
    simpa using h.symm.eq_nil
  · rintro ⟨rfl, rfl⟩
    exact h.eq_nil

/-- Nothing is wrong with `relativeTo` exactly if every frame has a pose. -/
theorem relativeErrors_eq_nil_iff [Mul R] [Add R] [Sub R] [OfNat R 0] [OfNat R 1]
    (hg : g.Indexed) :
    g.relativeErrors = [] ↔ ∀ v ∈ g.vertices, ∃ p, g.poseInScope v.name = .ok p := by
  obtain ⟨lost, loops, haccounts, hperm⟩ := exists_accounts_relative hg
  rw [eq_nil_iff_of_perm hperm, haccounts.eq_nil_iff hg]
  simp only [true_implies, exists_poseInScope_iff hg]

/-- Nothing is wrong with `attachedTo` exactly if every explicit frame, and
that of the scope, has a body. -/
theorem attachedErrors_eq_nil_iff (hg : g.Indexed) :
    g.attachedErrors = [] ↔
      ∀ v ∈ g.vertices, Attachable v → ∃ body, g.attachedBody v.name = .ok body := by
  obtain ⟨lost, loops, haccounts, hperm⟩ := exists_accounts_attached hg
  rw [eq_nil_iff_of_perm hperm, haccounts.eq_nil_iff hg]
  simp only [exists_attachedBody_iff hg]

/-- Every reference that leads on is among those from any frame. -/
theorem reached_of_follow (hg : g.Indexed) {name next : String}
    (h : g.follow reference name = some next) : g.Reached reference (fun _ => True) name := by
  obtain ⟨v, hv, rfl, -⟩ := (follow_eq_some_iff hg).mp h
  exact ⟨v, hv, trivial, [], .nil v.name, by simp⟩

/-- **Validation agrees with following every chain.**  It reports each
`relativeTo` that names no frame once and each loop of them once, and so
nothing exactly if every frame has a pose; and the same of `attachedTo`, as far
as explicit frames and that of the scope lead. -/
theorem validate_eq_accounts [Mul R] [Add R] [Sub R] [OfNat R 0] [OfNat R 1]
    (hg : g.Reachable) :
    g.validate = g.relativeErrors ++ g.attachedErrors ∧
    (∃ lost loops, g.Accounts g.relativeReference (fun _ => True) lost loops ∧
      g.relativeErrors.Perm
        (lost.map lostRelative ++ loops.map fun c => .poseCycle (closed c))) ∧
    (g.relativeErrors = [] ↔ ∀ v ∈ g.vertices, ∃ p, g.poseInScope v.name = .ok p) ∧
    (∃ lost loops,
      g.Accounts g.attachedReference (g.Reached g.attachedReference Attachable) lost loops ∧
      g.attachedErrors.Perm
        (lost.map g.lostAttached ++ loops.map fun c => .attachedToCycle (closed c))) ∧
    (g.attachedErrors = [] ↔
      ∀ v ∈ g.vertices, Attachable v → ∃ body, g.attachedBody v.name = .ok body) := by
  have hi := hg.indexed
  refine ⟨rfl, ?_, relativeErrors_eq_nil_iff hi, exists_accounts_attached hi,
    attachedErrors_eq_nil_iff hi⟩
  obtain ⟨lost, loops, haccounts, hperm⟩ := exists_accounts_relative hi
  -- every frame counts as a start, so every reference is reached
  refine ⟨lost, loops, haccounts.congr fun name next hnext => ?_, hperm⟩
  exact iff_of_true (reached_of_follow hi hnext) trivial

/-! ### Two frames in a circle, and one that is lost -/

/-- A frame in a world of integers, relative to another one. -/
def placed (name relativeTo : String) : Vertex Int :=
  { name, kind := .frame, pose := .identity, relativeTo }

/-- The frame of a world of integers. -/
def ground : Vertex Int := { name := "world", kind := .scope, pose := .identity }

/-- The graph of two frames that refer to each other and of one that refers to
nothing. -/
def tangledGraph : FrameGraph Int :=
  { vertices := #[ground, placed "left" "right", placed "right" "left", placed "astray" "ghost"]
    index := ((((∅ : Std.TreeMap String Nat).insert "world" 0).insert "left" 1).insert "right"
      2).insert "astray" 3 }

theorem tangledGraph_reachable : tangledGraph.Reachable :=
  .add (v := placed "astray" "ghost")
    (.add (v := placed "right" "left")
      (.add (v := placed "left" "right") (.ofName "world") rfl) rfl) rfl

/-- The lost frame and the circle are reported, and nothing about bodies. -/
theorem validate_tangledGraph :
    tangledGraph.Reachable ∧
    .frameNotFound "ghost" "relative_to of [astray]" ∈ tangledGraph.relativeErrors ∧
    (∃ loop, ["left", "right"] ~r loop ∧ .poseCycle (closed loop) ∈ tangledGraph.relativeErrors) ∧
    tangledGraph.attachedErrors = [] := by
  obtain ⟨-, ⟨lost, loops, haccounts, hperm⟩, -, -, hbodies⟩ :=
    validate_eq_accounts tangledGraph_reachable
  refine ⟨tangledGraph_reachable, ?_, ?_, hbodies.mpr ?_⟩
  · rw [hperm.mem_iff]
    have hlost := (haccounts.lost_iff "astray" "ghost").mpr ⟨trivial, rfl, rfl⟩
    exact List.mem_append_left _ (List.mem_map_of_mem (f := lostRelative) hlost)
  · have hloop : IsLoop (tangledGraph.follow tangledGraph.relativeReference) ["left", "right"] :=
      ⟨"left", by simp, .cons rfl (.cons rfl (.nil _)), by simp⟩
    obtain ⟨c, hc, hrot⟩ := haccounts.complete _ hloop ⟨"left", by simp, trivial⟩
    refine ⟨c, hrot, hperm.mem_iff.mpr (List.mem_append_right _ ?_)⟩
    exact List.mem_map_of_mem (f := fun c => Error.poseCycle (closed c)) hc
  · -- every frame is attached to the ground, which is attached to nothing
    intro v hv _
    rw [exists_attachedBody_iff tangledGraph_reachable.indexed]
    simp only [tangledGraph, List.mem_toArray, List.mem_cons, List.not_mem_nil, or_false] at hv
    have hground : ground ∈ tangledGraph.vertices := by simp [tangledGraph]
    rcases hv with rfl | rfl | rfl | rfl
    · exact ⟨[], ground, ⟨.nil _, by simp⟩, hground, rfl⟩
    · exact ⟨[placed "left" "right"], ground, ⟨.cons rfl (.nil _), by simp [tangledGraph]⟩,
        hground, rfl⟩
    · exact ⟨[placed "right" "left"], ground, ⟨.cons rfl (.nil _), by simp [tangledGraph]⟩,
        hground, rfl⟩
    · exact ⟨[placed "astray" "ghost"], ground, ⟨.cons rfl (.nil _), by simp [tangledGraph]⟩,
        hground, rfl⟩

end Scene.FrameGraph

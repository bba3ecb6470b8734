/-
Frames in another order.

Two graphs with the same frames, in whatever order these were added, extend
each other.  So the same frames are found under the same names, courses are the
same, and with them all poses and bodies, errors included.

Validation starts its walks in the order of the frames, and where it enters a
circle depends on that.  But what it reports is an account of lost references
and of loops up to where they are entered, and such an account is determined by
what follows what: as a list of lost references up to its order, as a list of
loops up to its order and up to rotation.  So the number of errors of either kind
is the same.

Main statement: `answers_eq_of_perm`.
-/
import Mathlib.Data.List.Cycle
import Scene.Proofs.Frames.Extension

namespace Scene.FrameGraph

variable {R : Type} {g h : FrameGraph R} {reference : Vertex R → Option String}

/-! ### Graphs that extend each other -/

/-- A graph extends one that has the same frames, that of the scope in front. -/
theorem extends_of_perm (hscope : g.vertices[0]? = h.vertices[0]?)
    (hperm : (g.vertices.toList.drop 1).Perm (h.vertices.toList.drop 1)) : h.Extends g := by
  -- the frame of the scope is in front of both, so all frames are the same
  have hfirst : g.vertices.toList.take 1 = h.vertices.toList.take 1 := by
    rw [List.take_one, List.take_one, List.head?_eq_getElem?, List.head?_eq_getElem?,
      Array.getElem?_toList, Array.getElem?_toList, hscope]
  have hall : g.vertices.toList.Perm h.vertices.toList := by
    rw [← List.take_append_drop 1 g.vertices.toList, ← List.take_append_drop 1 h.vertices.toList,
      hfirst]
    exact hperm.append_left _
  refine ⟨by rw [scopeName, scopeName, hscope], fun v hv => ?_⟩
  rw [← Array.mem_toList_iff] at hv ⊢
  exact hall.mem_iff.mp hv

section

variable (hext : h.Extends g) (hext' : g.Extends h) (hg : g.Indexed) (hh : h.Indexed)

include hext hext' hg hh

/-- Both graphs find the same frame for a name. -/
theorem vertex?_eq_of_extends (name : String) : h.vertex? name = g.vertex? name := by
  cases hv : g.vertex? name with
  | some v => exact hext.vertex?_eq_some hg hh hv
  | none =>
    cases hw : h.vertex? name with
    | none => rfl
    | some w => exact (hext'.vertex?_eq_some hh hg hw).symm.trans hv

/-- Both graphs give one pose, or one error. -/
theorem poseInScope_eq_of_extends [Mul R] [Add R] [Sub R] [OfNat R 0] [OfNat R 1]
    (name : String) : h.poseInScope name = g.poseInScope name := by
  obtain heq | ⟨vs, last, v, hlost, hv⟩ := hext.poseInScope_eq_or hg hh name
  · exact heq
  · -- what is lost in one graph is not found in the other
    rw [vertex?_eq_of_extends hext hext' hg hh, hlost.2] at hv
    cases hv

/-- Both graphs give one body, or one error. -/
theorem attachedBody_eq_of_extends (name : String) : h.attachedBody name = g.attachedBody name := by
  obtain heq | ⟨vs, last, v, hlost, hv⟩ := hext.attachedBody_eq_or hg hh name
  · exact heq
  · rw [vertex?_eq_of_extends hext hext' hg hh, hlost.2] at hv
    cases hv

/-- References lead the same way in both graphs. -/
theorem follow_eq_of_extends : h.follow reference = g.follow reference := by
  funext name
  rw [follow, follow, vertex?_eq_of_extends hext hext' hg hh]

/-- What is reached from frames of a kind is the same. -/
theorem reached_iff_of_extends {P : Vertex R → Prop} {name : String} :
    h.Reached reference P name ↔ g.Reached reference P name := by
  constructor
  · rintro ⟨v, hv, hP, vs, hlead⟩
    exact ⟨v, hext'.mem v hv, hP, vs, hext'.leads hh hg hlead⟩
  · rintro ⟨v, hv, hP, vs, hlead⟩
    exact ⟨v, hext.mem v hv, hP, vs, hext.leads hg hh hlead⟩

/-- An account of one graph is one of the other. -/
theorem Accounts.of_extends {P : Vertex R → Prop} {lost : List (String × String)}
    {loops : List (List String)}
    (haccounts : h.Accounts reference (h.Reached reference P) lost loops) :
    g.Accounts reference (g.Reached reference P) lost loops := by
  have hfollow : h.follow reference = g.follow reference := follow_eq_of_extends hext hext' hg hh
  have hfound := vertex?_eq_of_extends hext hext' hg hh
  have hamong (name : String) : h.Reached reference P name ↔ g.Reached reference P name :=
    reached_iff_of_extends hext hext' hg hh
  refine ⟨haccounts.nodup, fun name missing => ?_, fun c hc => ?_, fun c hc hsome => ?_,
    haccounts.distinct⟩
  · rw [← hamong, ← hfollow, ← hfound]
    exact haccounts.lost_iff name missing
  · obtain ⟨hloop, hall⟩ := haccounts.isLoop c hc
    exact ⟨hfollow ▸ hloop, fun name hname => (hamong name).mp (hall name hname)⟩
  · obtain ⟨name, hname, hreached⟩ := hsome
    exact haccounts.complete c (hfollow ▸ hc) ⟨name, hname, (hamong name).mpr hreached⟩

end

/-! ### Two accounts of one graph -/

section

variable {among : String → Prop} {lost lost' : List (String × String)}
  {loops loops' : List (List String)}

/-- The lost references of an account are determined up to their order. -/
theorem Accounts.perm_lost (haccounts : g.Accounts reference among lost loops)
    (haccounts' : g.Accounts reference among lost' loops') : lost.Perm lost' := by
  rw [List.perm_ext_iff_of_nodup haccounts.nodup.of_map haccounts'.nodup.of_map]
  rintro ⟨name, missing⟩
  rw [haccounts.lost_iff, haccounts'.lost_iff]

/-- Loops that are accounted for are distinct as cycles. -/
theorem Accounts.nodup_cycles (haccounts : g.Accounts reference among lost loops) :
    (loops.map Cycle.ofList).Nodup := by
  rw [List.nodup_iff_pairwise_ne, List.pairwise_map]
  exact haccounts.distinct.imp fun hne heq => hne (Cycle.coe_eq_coe.mp heq)

/-- Each loop in one account is in every other one, as a cycle. -/
theorem Accounts.cycles_subset (haccounts : g.Accounts reference among lost loops)
    (haccounts' : g.Accounts reference among lost' loops') :
    ∀ c ∈ loops.map Cycle.ofList, c ∈ loops'.map Cycle.ofList := by
  intro c hc
  obtain ⟨names, hnames, rfl⟩ := List.mem_map.mp hc
  obtain ⟨hloop, hamong⟩ := haccounts.isLoop names hnames
  obtain ⟨name, hname⟩ := hloop.exists_mem
  -- the other account has the same loop, entered somewhere
  obtain ⟨names', hnames', hrot⟩ :=
    haccounts'.complete names hloop ⟨name, hname, hamong name hname⟩
  exact List.mem_map.mpr ⟨names', hnames', Cycle.coe_eq_coe.mpr hrot.symm⟩

/-- The loops of an account are determined up to their order and up to where they
are entered. -/
theorem Accounts.perm_cycles (haccounts : g.Accounts reference among lost loops)
    (haccounts' : g.Accounts reference among lost' loops') :
    (loops.map Cycle.ofList).Perm (loops'.map Cycle.ofList) := by
  rw [List.perm_ext_iff_of_nodup haccounts.nodup_cycles haccounts'.nodup_cycles]
  exact fun c => ⟨haccounts.cycles_subset haccounts' c, haccounts'.cycles_subset haccounts c⟩

/-- Two accounts have the same number of loops. -/
theorem Accounts.length_loops_eq (haccounts : g.Accounts reference among lost loops)
    (haccounts' : g.Accounts reference among lost' loops') : loops.length = loops'.length := by
  simpa using (haccounts.perm_cycles haccounts').length_eq

end

/-! ### What is reported -/

/-- Errors, one for each entry of an account of what frames of a kind lead to,
by their codes. -/
def ReportedBy (g : FrameGraph R) (reference : Vertex R → Option String) (P : Vertex R → Prop)
    (lostCode loopCode : ErrorCode) (errors : Errors) : Prop :=
  ∃ lost loops, g.Accounts reference (g.Reached reference P) lost loops ∧
    (errors.map Error.code).Perm
      (List.replicate lost.length lostCode ++ List.replicate loops.length loopCode)

theorem reportedBy_of_perm {P : Vertex R → Prop} {lost : List (String × String)}
    {loops : List (List String)} {onLost : String × String → Error} {onLoop : List String → Error}
    {lostCode loopCode : ErrorCode} {errors : Errors}
    (haccounts : g.Accounts reference (g.Reached reference P) lost loops)
    (hperm : errors.Perm (lost.map onLost ++ loops.map onLoop))
    (hlost : ∀ pair, (onLost pair).code = lostCode) (hloop : ∀ c, (onLoop c).code = loopCode) :
    g.ReportedBy reference P lostCode loopCode errors := by
  refine ⟨lost, loops, haccounts, ?_⟩
  have hcodes := hperm.map Error.code
  simpa [Function.comp_def, hlost, hloop] using hcodes

/-- Errors of placements are reported by an account. -/
theorem reportedBy_relativeErrors (hg : g.Indexed) :
    g.ReportedBy g.relativeReference (fun _ => True) .frameNameNotFound .poseCycleDetected
      g.relativeErrors := by
  obtain ⟨lost, loops, haccounts, hperm⟩ := exists_accounts_relative hg
  exact reportedBy_of_perm haccounts hperm (fun _ => rfl) fun _ => rfl

/-- Errors of attachments are reported by an account. -/
theorem reportedBy_attachedErrors (hg : g.Indexed) :
    g.ReportedBy g.attachedReference Attachable .frameAttachedToInvalid .frameAttachedToCycle
      g.attachedErrors := by
  obtain ⟨lost, loops, haccounts, hperm⟩ := exists_accounts_attached hg
  exact reportedBy_of_perm haccounts hperm (fun _ => rfl) fun _ => rfl

/-- Of graphs that extend each other the same codes are reported. -/
theorem perm_code_of_reportedBy {P : Vertex R → Prop} {lostCode loopCode : ErrorCode}
    {errors errors' : Errors} (hext : h.Extends g) (hext' : g.Extends h) (hg : g.Indexed)
    (hh : h.Indexed) (hreported : g.ReportedBy reference P lostCode loopCode errors)
    (hreported' : h.ReportedBy reference P lostCode loopCode errors') :
    (errors'.map Error.code).Perm (errors.map Error.code) := by
  obtain ⟨lost, loops, haccounts, hperm⟩ := hreported
  obtain ⟨lost', loops', haccounts', hperm'⟩ := hreported'
  -- both are accounts of `g` then, and these have as many entries of each kind
  have hsame := haccounts'.of_extends hext hext' hg hh
  rw [(hsame.perm_lost haccounts).length_eq, hsame.length_loops_eq haccounts] at hperm'
  exact hperm'.trans hperm.symm

/-- Validation finds errors of the same codes, equally many of each. -/
theorem perm_code_validate (hext : h.Extends g) (hext' : g.Extends h) (hg : g.Indexed)
    (hh : h.Indexed) : (h.validate.map Error.code).Perm (g.validate.map Error.code) := by
  have hrelative := reportedBy_relativeErrors hh
  have hattached := reportedBy_attachedErrors hh
  -- references are read off a frame and the name of the scope only
  rw [hext.relativeReference_eq] at hrelative
  rw [hext.attachedReference_eq] at hattached
  rw [validate, validate, List.map_append, List.map_append]
  exact (perm_code_of_reportedBy hext hext' hg hh (reportedBy_relativeErrors hg) hrelative).append
    (perm_code_of_reportedBy hext hext' hg hh (reportedBy_attachedErrors hg) hattached)

/-- **What is resolved does not depend on the order of frames.**  If the frames of
two graphs differ in their order only, that of the scope apart, then both give
the same poses, the same bodies and the same errors; and validation reports as
many errors of each code. -/
theorem answers_eq_of_perm [Mul R] [Add R] [Sub R] [Neg R] [OfNat R 0] [OfNat R 1]
    (hg : g.Reachable) (hh : h.Reachable) (hscope : g.vertices[0]? = h.vertices[0]?)
    (hperm : (g.vertices.toList.drop 1).Perm (h.vertices.toList.drop 1)) :
    (∀ name, h.poseInScope name = g.poseInScope name) ∧
    (∀ name relativeTo, h.resolvePose name relativeTo = g.resolvePose name relativeTo) ∧
    (∀ name, h.attachedBody name = g.attachedBody name) ∧
    ∀ code, h.validate.countP (·.code == code) = g.validate.countP (·.code == code) := by
  have hext := extends_of_perm hscope hperm
  have hext' := extends_of_perm hscope.symm hperm.symm
  have hposes := poseInScope_eq_of_extends hext hext' hg.indexed hh.indexed
  refine ⟨hposes, fun name relativeTo => ?_,
    attachedBody_eq_of_extends hext hext' hg.indexed hh.indexed, fun code => ?_⟩
  · simp only [resolvePose, orScope, hposes, hext.scopeName]
  · have hcodes := perm_code_validate hext hext' hg.indexed hh.indexed
    simpa [List.countP_map, Function.comp_def] using hcodes.countP_eq (· == code)

/-- The tangled graph, its frames added the other way round. -/
def retangledGraph : FrameGraph Int :=
  { vertices := #[ground, placed "astray" "ghost", placed "right" "left", placed "left" "right"]
    index := ((((∅ : Std.TreeMap String Nat).insert "world" 0).insert "astray" 1).insert "right"
      2).insert "left" 3 }

theorem retangledGraph_reachable : retangledGraph.Reachable :=
  .add (v := placed "left" "right")
    (.add (v := placed "right" "left")
      (.add (v := placed "astray" "ghost") (.ofName "world") rfl) rfl) rfl

/-- Either way the circle is the same from the left frame, and is counted
once. -/
theorem answers_eq_retangledGraph :
    tangledGraph.Reachable ∧ retangledGraph.Reachable ∧
    tangledGraph.vertices[0]? = retangledGraph.vertices[0]? ∧
    (tangledGraph.vertices.toList.drop 1).Perm (retangledGraph.vertices.toList.drop 1) ∧
    retangledGraph.poseInScope "left" = .error [.poseCycle ["left", "right", "left"]] ∧
    retangledGraph.validate.countP (·.code == .poseCycleDetected) =
      tangledGraph.validate.countP (·.code == .poseCycleDetected) := by
  have hperm : (tangledGraph.vertices.toList.drop 1).Perm (retangledGraph.vertices.toList.drop 1) :=
    (List.reverse_perm [placed "left" "right", placed "right" "left", placed "astray" "ghost"]).symm
  obtain ⟨hposes, -, -, hcounts⟩ :=
    answers_eq_of_perm tangledGraph_reachable retangledGraph_reachable rfl hperm
  exact ⟨tangledGraph_reachable, retangledGraph_reachable, rfl, hperm,
    (hposes "left").trans poseInScope_left_tangledGraph, hcounts .poseCycleDetected⟩

end Scene.FrameGraph

/-
Cycles as they are reported.

A report of a cycle lists names, and the names are evidence: they can be followed
one by one in the graph.  A walk from a name reports all that it went through, so
its path may have a tail before the cycle; it ends with the first name that comes
again.  A check of the whole graph walks from many starts and cuts the tail off,
so its path is the cycle alone and ends with the name that it begins with.

Both are paths that `Winds` describes.  A walk gives one because the names on a
course that returns differ, and the check because a loop is a trail that visits
nothing twice.

Main statement: `winds_of_cycle_reported`.
-/
import Mathlib.Data.List.Chain
import Scene.Proofs.Frames.Validate

namespace Scene

/-! ### Paths that come back -/

/-- References lead along the path from name to name, and its last name is the
first one that comes again. -/
structure Winds (f : String → Option String) (path : List String) : Prop where
  leads : path.IsChain fun a b => f a = some b
  distinct : path.dropLast.Nodup
  returns : ∃ last, path.getLast? = some last ∧ path.dropLast.count last = 1

variable {f : String → Option String}

/-- A trail and its end, as one list. -/
theorem Trail.isChain {α : Type} {f : α → Option α} {a c : α} {as : List α}
    (h : Trail f a as c) : (as ++ [c]).IsChain fun a b => f a = some b := by
  induction h with
  | nil => exact .singleton _
  | @cons a b c as hstep h ih =>
    cases h with
    | nil => exact .cons_cons hstep (.singleton _)
    | cons => exact .cons_cons hstep ih

/-- A trail, with its end, begins where it starts. -/
theorem Trail.head?_append {α : Type} {f : α → Option α} {a c : α} {as : List α}
    (h : Trail f a as c) : (as ++ [c]).head? = some a := by
  cases h with
  | nil => rfl
  | cons => rfl

/-- A trail without repetition that ends on itself winds. -/
theorem Trail.winds {name last : String} {names : List String} (h : Trail f name names last)
    (hnodup : names.Nodup) (hlast : last ∈ names) : Winds f (names ++ [last]) where
  leads := h.isChain
  distinct := by rwa [List.dropLast_concat]
  returns := by
    refine ⟨last, List.getLast?_concat, ?_⟩
    rw [List.dropLast_concat]
    exact List.count_eq_one_of_mem hnodup hlast

/-- A loop with its first name once more at the end winds, and that is all it
does. -/
theorem IsLoop.winds_closed {c : List String} (h : IsLoop f c) :
    Winds f (FrameGraph.closed c) ∧
      (FrameGraph.closed c).head? = (FrameGraph.closed c).getLast? := by
  obtain ⟨a, hne, htrail, hnodup⟩ := h
  obtain ⟨b, bs, rfl⟩ := List.exists_cons_of_ne_nil hne
  obtain rfl := htrail.head_eq
  refine ⟨htrail.winds hnodup List.mem_cons_self, ?_⟩
  have hclosed : FrameGraph.closed (b :: bs) = b :: bs ++ [b] := rfl
  rw [hclosed, List.getLast?_concat, htrail.head?_append]

namespace FrameGraph

variable {R : Type} {g : FrameGraph R} {reference : Vertex R → Option String}

/-! ### Walks -/

/-- A course that returns winds, from the name it was asked for. -/
theorem Takes.winds {name last : String} {vs : List (Vertex R)}
    (h : g.Takes reference name (.returns vs last)) :
    (vs.map Vertex.name ++ [last]).head? = some name ∧
      Winds (g.follow reference) (vs.map Vertex.name ++ [last]) := by
  obtain ⟨⟨htrail, -⟩, hnodup, hlast⟩ := h
  exact ⟨htrail.head?_append, htrail.winds hnodup hlast⟩

/-- The cycle that a walk along `attachedTo` reports. -/
theorem winds_of_attachedBody (hg : g.Indexed) {name : String} {es : Errors} {e : Error}
    (h : g.attachedBody name = .error es) (he : e ∈ es) (hcode : e.code = .frameAttachedToCycle) :
    ∃ path, e = .attachedToCycle path ∧ path.head? = some name ∧
      Winds (g.follow g.attachedReference) path := by
  obtain ⟨c, hc⟩ := exists_takes hg g.attachedReference name
  rw [attachedBody_eq_of_takes hg hc] at h
  cases c with
  | rests => cases h
  | lost =>
    -- a missing frame is reported with another code
    obtain rfl := Except.error.inj h
    rw [List.mem_singleton.mp he] at hcode
    cases hcode
  | returns vs last =>
    obtain rfl := Except.error.inj h
    exact ⟨_, List.mem_singleton.mp he, hc.winds⟩

/-- The cycle that a walk along `relativeTo` reports. -/
theorem winds_of_poseInScope [Mul R] [Add R] [Sub R] [OfNat R 0] [OfNat R 1] (hg : g.Indexed)
    {name : String} {es : Errors} {e : Error} (h : g.poseInScope name = .error es) (he : e ∈ es)
    (hcode : e.code = .poseCycleDetected) :
    ∃ path, e = .poseCycle path ∧ path.head? = some name ∧
      Winds (g.follow g.relativeReference) path := by
  obtain ⟨c, hc⟩ := exists_takes hg g.relativeReference name
  rw [poseInScope_eq_of_takes hg hc] at h
  cases c with
  | rests => cases h
  | lost =>
    -- a missing frame is reported with another code
    obtain rfl := Except.error.inj h
    rw [List.mem_singleton.mp he] at hcode
    cases hcode
  | returns vs last =>
    obtain rfl := Except.error.inj h
    exact ⟨_, List.mem_singleton.mp he, hc.winds⟩

/-! ### The check of the whole graph -/

/-- The cycles among the errors of an account are its loops. -/
theorem exists_loop_of_mem {among : String → Prop} {lost : List (String × String)}
    {loops : List (List String)} {errors : Errors} {onLost : String × String → Error}
    {onLoop : List String → Error} (haccounts : g.Accounts reference among lost loops)
    (hperm : errors.Perm (lost.map onLost ++ loops.map fun c => onLoop (closed c))) {e : Error}
    (he : e ∈ errors) (hlost : ∀ p, e ≠ onLost p) :
    ∃ path, e = onLoop path ∧ Winds (g.follow reference) path ∧ path.head? = path.getLast? := by
  -- an account lists lost references and loops, and this error is not of the first kind
  rcases List.mem_append.mp (hperm.mem_iff.mp he) with he | he
  · obtain ⟨p, -, rfl⟩ := List.mem_map.mp he
    exact absurd rfl (hlost p)
  · obtain ⟨c, hc, rfl⟩ := List.mem_map.mp he
    exact ⟨closed c, rfl, (haccounts.isLoop c hc).1.winds_closed⟩

/-- The check of `relativeTo` reports no other kind of cycle. -/
theorem code_of_mem_relativeErrors {e : Error} (h : e ∈ g.relativeErrors) :
    e.code = .frameNameNotFound ∨ e.code = .poseCycleDetected := by
  obtain ⟨finding, -, rfl⟩ := List.mem_map.mp h
  cases finding with
  | missing => exact .inl rfl
  | loop => exact .inr rfl

/-- What is reported of attachments is a name without a frame, or a cycle. -/
theorem code_of_mem_attachedErrors {e : Error} (h : e ∈ g.attachedErrors) :
    e.code = .frameAttachedToInvalid ∨ e.code = .frameAttachedToCycle := by
  obtain ⟨finding, -, rfl⟩ := List.mem_map.mp h
  cases finding with
  | missing => exact .inl rfl
  | loop => exact .inr rfl

/-- A cycle of `relativeTo` that the check reports. -/
theorem winds_of_mem_validate_relative (hg : g.Indexed) {e : Error} (he : e ∈ g.validate)
    (hcode : e.code = .poseCycleDetected) :
    ∃ path, e = .poseCycle path ∧ Winds (g.follow g.relativeReference) path ∧
      path.head? = path.getLast? := by
  obtain ⟨lost, loops, haccounts, hperm⟩ := exists_accounts_relative hg
  rcases List.mem_append.mp he with he | he
  · refine exists_loop_of_mem haccounts hperm he ?_
    rintro p rfl
    cases hcode
  · have hother := code_of_mem_attachedErrors he
    simp [hcode] at hother

/-- A cycle of `attachedTo` that the check reports. -/
theorem winds_of_mem_validate_attached (hg : g.Indexed) {e : Error} (he : e ∈ g.validate)
    (hcode : e.code = .frameAttachedToCycle) :
    ∃ path, e = .attachedToCycle path ∧ Winds (g.follow g.attachedReference) path ∧
      path.head? = path.getLast? := by
  obtain ⟨lost, loops, haccounts, hperm⟩ := exists_accounts_attached hg
  rcases List.mem_append.mp he with he | he
  · have hother := code_of_mem_relativeErrors he
    simp [hcode] at hother
  · refine exists_loop_of_mem haccounts hperm he ?_
    rintro p rfl
    cases hcode

/-- **A cycle that is reported is one.**  The path of a walk begins with the name
that was asked for, each name on it is what the one before refers to, and only
the last one comes again, once.  The path of the check of the whole graph is such
a path too, and begins with the name that it ends with. -/
theorem winds_of_cycle_reported [Mul R] [Add R] [Sub R] [OfNat R 0] [OfNat R 1]
    (hg : g.Reachable) :
    (∀ name es e, g.poseInScope name = .error es → e ∈ es → e.code = .poseCycleDetected →
      ∃ path, e = .poseCycle path ∧ path.head? = some name ∧
        Winds (g.follow g.relativeReference) path) ∧
    (∀ name es e, g.attachedBody name = .error es → e ∈ es → e.code = .frameAttachedToCycle →
      ∃ path, e = .attachedToCycle path ∧ path.head? = some name ∧
        Winds (g.follow g.attachedReference) path) ∧
    (∀ e ∈ g.validate, e.code = .poseCycleDetected →
      ∃ path, e = .poseCycle path ∧ Winds (g.follow g.relativeReference) path ∧
        path.head? = path.getLast?) ∧
    (∀ e ∈ g.validate, e.code = .frameAttachedToCycle →
      ∃ path, e = .attachedToCycle path ∧ Winds (g.follow g.attachedReference) path ∧
        path.head? = path.getLast?) := by
  have hi := hg.indexed
  refine ⟨?_, ?_, ?_, ?_⟩
  · intro name es e h he hcode
    exact winds_of_poseInScope hi h he hcode
  · intro name es e h he hcode
    exact winds_of_attachedBody hi h he hcode
  · intro e he hcode
    exact winds_of_mem_validate_relative hi he hcode
  · intro e he hcode
    exact winds_of_mem_validate_attached hi he hcode

/-! ### A circle with a tail -/

/-- A frame of a world of integers that is expressed in another one and attached
to it. -/
def tied (name other : String) : Vertex Int :=
  { name, kind := .frame, pose := .identity, relativeTo := other, attachedTo := other }

/-- The graph of two frames that are tied to each other, and of one that hangs on
them. -/
def knottedGraph : FrameGraph Int :=
  { vertices := #[ground, tied "tail" "left", tied "left" "right", tied "right" "left"]
    index := ((((∅ : Std.TreeMap String Nat).insert "world" 0).insert "tail" 1).insert "left"
      2).insert "right" 3 }

theorem knottedGraph_reachable : knottedGraph.Reachable :=
  .add (v := tied "right" "left")
    (.add (v := tied "left" "right")
      (.add (v := tied "tail" "left") (.ofName "world") rfl) rfl) rfl

/-- A walk from the tail reports the tail, and the check does not. -/
theorem winds_knottedGraph :
    knottedGraph.Reachable ∧
    knottedGraph.poseInScope "tail" = .error [.poseCycle ["tail", "left", "right", "left"]] ∧
    knottedGraph.attachedBody "tail" =
      .error [.attachedToCycle ["tail", "left", "right", "left"]] ∧
    knottedGraph.validate =
      [.poseCycle ["left", "right", "left"], .attachedToCycle ["left", "right", "left"]] ∧
    Winds (knottedGraph.follow knottedGraph.relativeReference) ["tail", "left", "right", "left"] ∧
    Winds (knottedGraph.follow knottedGraph.attachedReference) ["left", "right", "left"] := by
  have hpose : knottedGraph.poseInScope "tail" =
      .error [.poseCycle ["tail", "left", "right", "left"]] := by decide +kernel
  have hbody : knottedGraph.attachedBody "tail" =
      .error [.attachedToCycle ["tail", "left", "right", "left"]] := by decide +kernel
  have hcheck : knottedGraph.validate =
      [.poseCycle ["left", "right", "left"], .attachedToCycle ["left", "right", "left"]] := by
    decide +kernel
  obtain ⟨hwalk, -, -, hchecked⟩ := winds_of_cycle_reported knottedGraph_reachable
  obtain ⟨_, heq, -, hwinds⟩ := hwalk "tail" _ _ hpose (List.mem_singleton_self _) rfl
  obtain ⟨_, heq', hwinds', -⟩ :=
    hchecked (.attachedToCycle ["left", "right", "left"]) (by simp [hcheck]) rfl
  obtain rfl := Error.poseCycle.inj heq
  obtain rfl := Error.attachedToCycle.inj heq'
  exact ⟨knottedGraph_reachable, hpose, hbody, hcheck, hwinds, hwinds'⟩

end FrameGraph

end Scene

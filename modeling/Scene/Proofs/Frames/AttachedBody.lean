/-
The body that a frame moves with.

`attachedTo` is followed to a frame without a reference: a link, a model, or a
scope that is attached to nothing.  As with poses, the answer for a name is
that of its course.

A frame with a reference has the body of what it refers to, in both directions
(`attachedBody_eq_ok_iff_of_reference`); one without a reference is its own body
(`attachedBody_of_no_reference`).  Whoever knows the references of a graph needs
no more than these two.

Main statement: `attachedBody_of_course`.
-/
import Mathlib.Logic.ExistsUnique
import Scene.Proofs.Frames.Course

namespace Scene.FrameGraph

variable {R : Type} {g : FrameGraph R}

/-! ### References to what a frame moves with -/

/-- What moves by itself: a body, and a scope that is attached to nothing. -/
theorem attachedReference_eq_none_iff {v : Vertex R} :
    g.attachedReference v = none ↔
      v.kind = .link ∨ v.kind = .model ∨ v.kind = .scope ∧ v.attachedTo = "" := by
  unfold attachedReference
  cases v.kind with
  | scope => by_cases h : v.attachedTo = "" <;> simp [h]
  | link => simp
  | joint => simp
  | frame => by_cases h : v.attachedTo = "" <;> simp [h]
  | model => simp

/-! ### The body of a course -/

/-- The body that a course gives. -/
def bodyOfCourse (g : FrameGraph R) : Course R → Except Errors String
  | .rests _ v => .ok v.name
  | .lost _ name => .error [g.attachedMissing name]
  | .returns through name => .error [.attachedToCycle (through.map Vertex.name ++ [name])]

/-- The body of a name is that of its course. -/
theorem attachedBody_eq_of_takes (hg : g.Indexed) {name : String} {c : Course R}
    (h : g.Takes g.attachedReference name c) : g.attachedBody name = g.bodyOfCourse c := by
  rcases hp : g.position? name with - | start
  · -- the name itself is missing
    obtain rfl := h.unique hg (takes_lost_nil (vertex?_eq_none_iff.mpr hp))
    simp only [attachedBody, hp]
    rfl
  · rw [hg.position?_eq_some_iff] at hp
    subst hp
    simp only [attachedBody, hg.position?_nameAt]
    obtain ⟨js, k, hw, hc⟩ | ⟨js, k, last, hw, hc⟩ | ⟨js, k, hw, hc⟩ :=
      walk_cases hg g.attachedReference start
    · obtain rfl := h.unique hg hc
      simp only [attachedStep, hw, List.getLast?_concat, bodyOfCourse]
      rfl
    · obtain rfl := h.unique hg hc
      simp only [attachedStep, hw, bodyOfCourse]
    · obtain rfl := h.unique hg hc
      simp only [attachedStep, hw, bodyOfCourse, map_name_verticesAt]
      simp [namesAt]

/-- The body of a name is the frame at which its course comes to rest. -/
theorem attachedBody_eq_ok_iff (hg : g.Indexed) {name body : String} :
    g.attachedBody name = .ok body ↔
      ∃ vs v, g.Takes g.attachedReference name (.rests vs v) ∧ v.name = body := by
  constructor
  · intro hbody
    obtain ⟨c, hc⟩ := exists_takes hg g.attachedReference name
    rw [attachedBody_eq_of_takes hg hc] at hbody
    cases c with
    | rests vs v => exact ⟨vs, v, hc, Except.ok.inj hbody⟩
    | lost => cases hbody
    | returns => cases hbody
  · rintro ⟨vs, v, hc, rfl⟩
    exact attachedBody_eq_of_takes hg hc

/-- There is a body exactly if the course comes to rest. -/
theorem exists_attachedBody_iff (hg : g.Indexed) {name : String} :
    (∃ body, g.attachedBody name = .ok body) ↔
      ∃ vs v, g.Takes g.attachedReference name (.rests vs v) := by
  simp only [attachedBody_eq_ok_iff hg]
  constructor
  · rintro ⟨-, vs, v, hc, -⟩
    exact ⟨vs, v, hc⟩
  · rintro ⟨vs, v, hc⟩
    exact ⟨v.name, vs, v, hc, rfl⟩

/-! ### One reference -/

/-- A frame without a reference is its own body. -/
theorem attachedBody_of_no_reference (hg : g.Indexed) {v : Vertex R} (hv : v ∈ g.vertices)
    (h : g.attachedReference v = none) : g.attachedBody v.name = .ok v.name :=
  attachedBody_eq_of_takes hg (c := .rests [] v) ⟨⟨.nil _, List.forall_mem_nil _⟩, hv, h⟩

/-- A frame with a reference moves with what it refers to. -/
theorem attachedBody_eq_ok_iff_of_reference (hg : g.Indexed) {v : Vertex R} {next body : String}
    (hv : v ∈ g.vertices) (h : g.attachedReference v = some next) :
    g.attachedBody v.name = .ok body ↔ g.attachedBody next = .ok body := by
  have hfound := hg.vertex?_name hv
  rw [attachedBody_eq_ok_iff hg, attachedBody_eq_ok_iff hg]
  constructor
  · rintro ⟨vs, w, ⟨hlead, hw, hnone⟩, hbody⟩
    cases vs with
    | nil =>
      -- the course cannot rest here, for `v` has a reference
      obtain rfl : v = w := hg.eq_of_name_eq hv hw hlead.1.eq_of_nil.symm
      rw [h] at hnone
      cases hnone
    | cons u us =>
      obtain ⟨hu, next', hnext, hrest⟩ := (Leads.cons_iff hg).mp hlead
      obtain rfl := Option.some.inj (hfound.symm.trans hu)
      obtain rfl := Option.some.inj (h.symm.trans hnext)
      exact ⟨us, w, ⟨hrest, hw, hnone⟩, hbody⟩
  · rintro ⟨vs, w, ⟨hlead, hw, hnone⟩, hbody⟩
    exact ⟨v :: vs, w, ⟨(Leads.cons_iff hg).mpr ⟨hfound, next, h, hlead⟩, hw, hnone⟩, hbody⟩

/-- Whatever is on the way to a body moves with it. -/
theorem attachedBody_of_mem_through (hg : g.Indexed) {name : String} {vs : List (Vertex R)}
    {v : Vertex R} (h : g.Takes g.attachedReference name (.rests vs v)) :
    ∀ u ∈ vs, g.attachedBody u.name = .ok v.name := by
  induction vs generalizing name with
  | nil => exact List.forall_mem_nil _
  | cons u us ih =>
    -- the rest of the course is the course of the next frame, to the same end
    have hbody := attachedBody_eq_of_takes hg h
    obtain ⟨hlead, hv, hnone⟩ := h
    obtain ⟨hu, next, -, hrest⟩ := (Leads.cons_iff hg).mp hlead
    obtain ⟨-, rfl⟩ := hg.vertex?_eq_some_iff.mp hu
    exact List.forall_mem_cons.mpr ⟨hbody, ih ⟨hrest, hv, hnone⟩⟩

/-- **The body of a name is decided by following `attachedTo` from it.**  There is
exactly one course.  If it comes to rest, then at a link, at a model or at a scope
that is attached to nothing, and this is the body of the name, of every frame on
the way and of itself; there is no other way to have a body.  If the course is
lost or returns, that is the only error. -/
theorem attachedBody_of_course [OfNat R 0] [OfNat R 1] (hg : g.Reachable) (name : String) :
    (∃! c, g.Takes g.attachedReference name c) ∧
    (∀ vs v, g.Takes g.attachedReference name (.rests vs v) →
      g.attachedBody name = .ok v.name ∧ g.vertex? v.name = some v ∧
      (v.kind = .link ∨ v.kind = .model ∨ v.kind = .scope ∧ v.attachedTo = "") ∧
      (∀ u ∈ vs, g.attachedBody u.name = .ok v.name) ∧ g.attachedBody v.name = .ok v.name) ∧
    (∀ body, g.attachedBody name = .ok body →
      ∃ vs v, g.Takes g.attachedReference name (.rests vs v) ∧ v.name = body) ∧
    (∀ vs last, g.Takes g.attachedReference name (.lost vs last) →
      g.attachedBody name = .error [.attachedToNotFound last g.scopeName]) ∧
    (∀ vs last, g.Takes g.attachedReference name (.returns vs last) →
      g.attachedBody name = .error [.attachedToCycle (vs.map Vertex.name ++ [last])]) := by
  have hi := hg.indexed
  refine ⟨?_, ?_, ?_, ?_, ?_⟩
  · obtain ⟨c, hc⟩ := exists_takes hi g.attachedReference name
    exact ⟨c, hc, fun c' hc' => hc'.unique hi hc⟩
  · intro vs v h
    have ⟨_, hv, hnone⟩ := h
    exact ⟨attachedBody_eq_of_takes hi h, hi.vertex?_name hv,
      attachedReference_eq_none_iff.mp hnone, attachedBody_of_mem_through hi h,
      attachedBody_of_no_reference hi hv hnone⟩
  · intro body hbody
    exact (attachedBody_eq_ok_iff hi).mp hbody
  · intro vs last h
    exact attachedBody_eq_of_takes hi h
  · intro vs last h
    exact attachedBody_eq_of_takes hi h

/-! ### A frame that moves with a link, by way of the model around it -/

/-- A frame of a model of integers, attached to another one or to none. -/
def fixedTo (name attachedTo : String) : Vertex Int :=
  { name, kind := .frame, pose := .identity, attachedTo }

/-- A link of a model of integers. -/
def linkNamed (name : String) : Vertex Int := { name, kind := .link, pose := .identity }

/-- The frame of a model of integers that moves with its link. -/
def carried : Vertex Int :=
  { name := "__model__", kind := .scope, pose := .identity, attachedTo := "base" }

/-- The graph of a link, and of a frame that is attached to the model by way of
another one. -/
def carriedGraph : FrameGraph Int :=
  { vertices := #[carried, linkNamed "base", fixedTo "mount" "", fixedTo "tip" "mount"]
    index := ((((∅ : Std.TreeMap String Nat).insert "__model__" 0).insert "base" 1).insert "mount"
      2).insert "tip" 3 }

theorem carriedGraph_reachable : carriedGraph.Reachable :=
  .add (v := fixedTo "tip" "mount")
    (.add (v := fixedTo "mount" "") (.add (v := linkNamed "base") (.model "base") rfl) rfl) rfl

/-- The way goes through both frames and that of the model to the link. -/
theorem attachedBody_carriedGraph :
    carriedGraph.Reachable ∧
    carriedGraph.Takes carriedGraph.attachedReference "tip"
      (.rests [fixedTo "tip" "mount", fixedTo "mount" "", carried] (linkNamed "base")) ∧
    carriedGraph.attachedBody "tip" = .ok "base" ∧
    carriedGraph.attachedBody "__model__" = .ok "base" := by
  have hcourse : carriedGraph.Takes carriedGraph.attachedReference "tip"
      (.rests [fixedTo "tip" "mount", fixedTo "mount" "", carried] (linkNamed "base")) :=
    ⟨⟨.cons rfl (.cons rfl (.cons rfl (.nil _))), by simp [carriedGraph]⟩,
      by simp [carriedGraph], rfl⟩
  obtain ⟨-, hrests, -⟩ := attachedBody_of_course carriedGraph_reachable "tip"
  obtain ⟨htip, -, -, hway, -⟩ := hrests _ _ hcourse
  exact ⟨carriedGraph_reachable, hcourse, htip, hway carried (by simp)⟩

end Scene.FrameGraph

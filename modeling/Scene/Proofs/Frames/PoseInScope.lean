/-
The pose of a frame in its scope.

`relativeTo` is followed up to a frame of the kind of a scope, which alone has
no reference.  The poses on the way are composed from the outside inwards, so
the last frame before the scope comes first and the frame that was asked for
comes last.

Main statement: the pose of a name is decided by its course
(`poseInScope_of_course`), of which there is exactly one.  A course to the
scope gives the composition, one that is lost gives the name where it is lost,
and one that returns gives the frames up to the return.  Since the course of a
frame is that of its reference with one frame in front, the pose of a frame
is that of its reference composed with its own.
-/
import Mathlib.Logic.ExistsUnique
import Scene.Proofs.Frames.Course

namespace Scene.FrameGraph

variable {R : Type} {g : FrameGraph R}

/-! ### References to what a pose is expressed in -/

/-- The scope alone is not placed relative to anything. -/
theorem relativeReference_eq_none_iff {v : Vertex R} :
    g.relativeReference v = none ↔ v.kind = .scope := by
  unfold relativeReference
  split
  · simp_all
  · split <;> simp_all

theorem kind_ne_scope {v : Vertex R} {next : String}
    (h : g.relativeReference v = some next) : v.kind ≠ .scope := by
  rintro hkind
  rw [relativeReference_eq_none_iff.mpr hkind] at h
  cases h

variable [Mul R] [Add R] [Sub R] [OfNat R 0] [OfNat R 1]

/-- The composition of poses, the first one innermost. -/
def composed (vs : List (Vertex R)) : Pose R :=
  (vs.reverse.map Vertex.pose).foldl Pose.compose .identity

omit [OfNat R 0] [OfNat R 1] in
theorem foldl_compose_append (poses : List (Pose R)) (outer p : Pose R) :
    (poses ++ [p]).foldl Pose.compose outer = (poses.foldl Pose.compose outer).compose p := by
  rw [List.foldl_append]
  rfl

/-- The pose of the nearest frame comes last. -/
theorem composed_cons (v : Vertex R) (vs : List (Vertex R)) :
    composed (v :: vs) = (composed vs).compose v.pose := by
  rw [composed, List.reverse_cons, List.map_append]
  exact foldl_compose_append _ _ _

/-- Composing along positions is composing along their frames. -/
theorem composeInward_eq (is : List (Fin g.vertices.size)) :
    g.composeInward is = composed (g.verticesAt is) := by
  rw [composeInward, composed, verticesAt, ← List.map_reverse, List.map_map, List.foldl_map]
  rfl

/-! ### The pose of a course -/

/-- What a missing frame is said to be missing for, given the frames on the
way to it. -/
def lookedUpFor (through : List (Vertex R)) : String :=
  match through.getLast? with
  | none => "pose query"
  | some v => s!"relative_to of [{v.name}]"

/-- The pose that a course gives. -/
def poseOfCourse : Course R → Except Errors (Pose R)
  | .rests through _ => .ok (composed through)
  | .lost through name => .error [.frameNotFound name (lookedUpFor through)]
  | .returns through name => .error [.poseCycle (through.map Vertex.name ++ [name])]

/-- The pose of a name is that of its course. -/
theorem poseInScope_eq_of_takes (hg : g.Indexed) {name : String} {c : Course R}
    (h : g.Takes g.relativeReference name c) : g.poseInScope name = poseOfCourse c := by
  rcases hp : g.position? name with - | start
  · -- the name itself is missing
    obtain rfl := h.unique hg (takes_lost_nil (vertex?_eq_none_iff.mpr hp))
    simp only [poseInScope, hp]
    rfl
  · rw [hg.position?_eq_some_iff] at hp
    subst hp
    simp only [poseInScope, hg.position?_nameAt]
    obtain ⟨js, k, hw, hc⟩ | ⟨js, k, last, hw, hc⟩ | ⟨js, k, hw, hc⟩ :=
      walk_cases hg g.relativeReference start
    -- the last position is that of the scope, whose own pose does not count
    · obtain rfl := h.unique hg hc
      simp only [relativeStep, hw, List.dropLast_concat, composeInward_eq, poseOfCourse]
    · obtain rfl := h.unique hg hc
      simp only [relativeStep, hw, poseOfCourse, lookedUpFor, verticesAt_append,
        verticesAt_cons, verticesAt_nil, List.getLast?_concat]
      rfl
    · obtain rfl := h.unique hg hc
      simp only [relativeStep, hw, poseOfCourse, map_name_verticesAt]
      simp [namesAt]

/-- There is a pose exactly if the course comes to rest. -/
theorem exists_poseInScope_iff (hg : g.Indexed) {name : String} :
    (∃ p, g.poseInScope name = .ok p) ↔
      ∃ vs v, g.Takes g.relativeReference name (.rests vs v) := by
  constructor
  · rintro ⟨p, hp⟩
    obtain ⟨c, hc⟩ := exists_takes hg g.relativeReference name
    rw [poseInScope_eq_of_takes hg hc] at hp
    cases c with
    | rests vs v => exact ⟨vs, v, hc⟩
    | lost => cases hp
    | returns => cases hp
  · rintro ⟨vs, v, hc⟩
    exact ⟨composed vs, poseInScope_eq_of_takes hg hc⟩

/-- The pose of a frame is that of its reference, composed with its own. -/
theorem poseInScope_eq_compose (hg : g.Indexed) {name : String} {v : Vertex R} {p : Pose R}
    (hv : g.vertex? name = some v) (hkind : v.kind ≠ .scope) (hp : g.poseInScope name = .ok p) :
    ∃ next outer, g.relativeReference v = some next ∧ g.poseInScope next = .ok outer ∧
      p = outer.compose v.pose := by
  obtain ⟨c, hc⟩ := exists_takes hg g.relativeReference name
  have hpose := poseInScope_eq_of_takes hg hc
  rw [hp] at hpose
  cases c with
  | lost => cases hpose
  | returns => cases hpose
  | rests vs s =>
    obtain ⟨hlead, hs, hnone⟩ := hc
    cases vs with
    | nil =>
      -- the course cannot rest here, for `v` has a reference
      have hname : s.name = name := hlead.1.eq_of_nil
      rw [← hname, hg.vertex?_name hs] at hv
      obtain rfl := Option.some.inj hv
      exact absurd (relativeReference_eq_none_iff.mp hnone) hkind
    | cons u us =>
      obtain ⟨hu, next, hnext, hrest⟩ := (Leads.cons_iff hg).mp hlead
      obtain rfl := Option.some.inj (hu.symm.trans hv)
      refine ⟨next, composed us, hnext, ?_, ?_⟩
      · exact poseInScope_eq_of_takes hg (c := .rests us s) ⟨hrest, hs, hnone⟩
      · rw [← composed_cons]
        exact Except.ok.inj hpose

/-- **The pose of a name is decided by following `relativeTo` from it.**  There
is exactly one course; if it comes to rest, then at a frame of the kind of a
scope, and the pose is the composition of the poses of the frames before it,
the outermost first. -/
theorem poseInScope_of_course (hg : g.Reachable) (name : String) :
    (∃! c, g.Takes g.relativeReference name c) ∧
    (∀ vs v, g.Takes g.relativeReference name (.rests vs v) →
      v.kind = .scope ∧ (∀ u ∈ vs, u.kind ≠ .scope) ∧
      g.poseInScope name = .ok ((vs.reverse.map Vertex.pose).foldl Pose.compose .identity)) ∧
    (∀ vs last, g.Takes g.relativeReference name (.lost vs last) →
      g.poseInScope name = .error [.frameNotFound last (lookedUpFor vs)]) ∧
    (∀ vs last, g.Takes g.relativeReference name (.returns vs last) →
      g.poseInScope name = .error [.poseCycle (vs.map Vertex.name ++ [last])]) ∧
    ∀ v p, g.vertex? name = some v → v.kind ≠ .scope → g.poseInScope name = .ok p →
      ∃ next outer, g.relativeReference v = some next ∧ g.poseInScope next = .ok outer ∧
        p = outer.compose v.pose := by
  have hi := hg.indexed
  refine ⟨?_, ?_, ?_, ?_, ?_⟩
  · obtain ⟨c, hc⟩ := exists_takes hi g.relativeReference name
    exact ⟨c, hc, fun c' hc' => hc'.unique hi hc⟩
  · intro vs v h
    refine ⟨relativeReference_eq_none_iff.mp h.2.2, ?_, poseInScope_eq_of_takes hi h⟩
    intro u hu
    obtain ⟨next, hnext⟩ := h.1.exists_reference hi hu
    exact kind_ne_scope hnext
  · intro vs last h
    exact poseInScope_eq_of_takes hi h
  · intro vs last h
    exact poseInScope_eq_of_takes hi h
  · intro v p hv hkind hp
    exact poseInScope_eq_compose hi hv hkind hp

/-! ### Two frames, one in the other -/

/-- A frame that stands one step along x and is turned round. -/
def turned : Vertex Int :=
  { name := "turned", kind := .frame, pose := ⟨⟨1, 0, 0⟩, ⟨0, 0, 0, 1⟩⟩ }

/-- A frame one step ahead of the turned one. -/
def ahead : Vertex Int :=
  { name := "ahead", kind := .frame, pose := .ofPosition ⟨1, 0, 0⟩, relativeTo := "turned" }

/-- The graph of the two. -/
def turnedGraph : FrameGraph Int :=
  { vertices := #[{ name := "world", kind := .scope, pose := .identity }, turned, ahead]
    index := (((∅ : Std.TreeMap String Nat).insert "world" 0).insert "turned" 1).insert "ahead" 2 }

theorem turnedGraph_reachable : turnedGraph.Reachable :=
  .add (v := ahead) (.add (v := turned) (.ofName "world") rfl) rfl

/-- One step ahead of a frame that is turned round is back at the origin. -/
theorem poseInScope_turnedGraph :
    turnedGraph.Reachable ∧
    turnedGraph.Takes turnedGraph.relativeReference "ahead"
      (.rests [ahead, turned] { name := "world", kind := .scope, pose := .identity }) ∧
    turnedGraph.poseInScope "ahead" = .ok ⟨⟨0, 0, 0⟩, ⟨0, 0, 0, 1⟩⟩ := by
  have hcourse : turnedGraph.Takes turnedGraph.relativeReference "ahead"
      (.rests [ahead, turned] { name := "world", kind := .scope, pose := .identity }) :=
    ⟨⟨.cons rfl (.cons rfl (.nil _)), by simp [turnedGraph]⟩, by simp [turnedGraph], rfl⟩
  obtain ⟨-, hrests, -⟩ := poseInScope_of_course turnedGraph_reachable "ahead"
  obtain ⟨-, -, hpose⟩ := hrests _ _ hcourse
  exact ⟨turnedGraph_reachable, hcourse, hpose⟩

end Scene.FrameGraph

/-
Changing frames.

The pose of a frame in its scope is a composition of poses of the graph.  If
these are rigid then so is it, however long the course is.  The pose of one
frame in another is the inverse of one such pose composed with another, that
is `b⁻¹ * a` in the group of rigid transforms; the laws of changing frames are
those of the group.

Main statement: `resolvePose_laws`.
-/
import Scene.Proofs.Frames.PoseInScope
import Scene.Proofs.Space.Rigid

namespace Scene.FrameGraph

variable {R : Type} [CommRing R] {g : FrameGraph R}

/-- All poses of a graph are rigid. -/
def IsRigid (g : FrameGraph R) : Prop := ∀ v ∈ g.vertices, v.pose.IsRigid

/-- A composition of rigid poses is rigid. -/
theorem isRigid_composed {vs : List (Vertex R)} (h : ∀ v ∈ vs, v.pose.IsRigid) :
    (composed vs).IsRigid := by
  induction vs with
  | nil => exact Pose.isRigid_identity
  | cons v vs ih =>
    obtain ⟨hv, hvs⟩ := List.forall_mem_cons.mp h
    rw [composed_cons]
    exact (ih hvs).compose hv

/-- The pose of a frame in its scope is rigid. -/
theorem IsRigid.poseInScope (h : g.IsRigid) (hg : g.Indexed) {name : String} {p : Pose R}
    (hp : g.poseInScope name = .ok p) : p.IsRigid := by
  obtain ⟨vs, v, hcourse⟩ := (exists_poseInScope_iff hg).mp ⟨p, hp⟩
  rw [poseInScope_eq_of_takes hg hcourse] at hp
  obtain rfl : composed vs = p := Except.ok.inj hp
  exact isRigid_composed fun u hu => h u (hcourse.1.2 u hu)

/-- There is a pose of one frame in another exactly if both have poses in the
scope. -/
theorem resolvePose_eq_ok_iff {a b : String} {p : Pose R} :
    g.resolvePose a b = .ok p ↔
      ∃ pa pb, g.poseInScope a = .ok pa ∧ g.poseInScope (g.orScope b) = .ok pb ∧
        p = pb.inverse.compose pa := by
  unfold resolvePose
  cases g.poseInScope a with
  | error es => cases g.poseInScope (g.orScope b) <;> simp [combine]
  | ok pa =>
    cases g.poseInScope (g.orScope b) with
    | error es => simp [combine]
    | ok pb => simp [combine, eq_comm]

/-- The pose of one frame in another, as an element of the group. -/
theorem resolvePose_eq {a b : String} (hb : b ≠ "") {A B : Rigid R}
    (hA : g.poseInScope a = .ok A.val) (hB : g.poseInScope b = .ok B.val) :
    g.resolvePose a b = .ok (B⁻¹ * A).val := by
  refine resolvePose_eq_ok_iff.mpr ⟨A.val, B.val, hA, ?_, rfl⟩
  rwa [orScope, if_neg hb]

/-- **Changing frames obeys the laws of rigid transforms.**  If all poses of a
graph are rigid then so are all that are resolved.  A frame stands in itself at
the identity, two frames stand in each other at inverse poses, and to change
from one frame to a second and then to a third is to change to the third. -/
theorem resolvePose_laws (hg : g.Reachable)
    (hrigid : ∀ v ∈ g.vertices, v.pose.rotation.normSquared = 1) :
    (∀ name p, g.poseInScope name = .ok p → p.rotation.normSquared = 1) ∧
    (∀ a b p, g.resolvePose a b = .ok p → p.rotation.normSquared = 1) ∧
    ∀ a b c, a ≠ "" → b ≠ "" → c ≠ "" → (∃ p, g.poseInScope a = .ok p) →
      (∃ p, g.poseInScope b = .ok p) → (∃ p, g.poseInScope c = .ok p) →
      g.resolvePose a a = .ok .identity ∧
      ∃ ab bc ac, g.resolvePose a b = .ok ab ∧ g.resolvePose b c = .ok bc ∧
        g.resolvePose a c = .ok ac ∧
        g.resolvePose b a = .ok ab.inverse ∧ bc.compose ab = ac := by
  have h : g.IsRigid := hrigid
  have hi := hg.indexed
  refine ⟨fun name p hp => h.poseInScope hi hp, ?_, ?_⟩
  · intro a b p hp
    obtain ⟨pa, pb, ha, hb, rfl⟩ := resolvePose_eq_ok_iff.mp hp
    exact (h.poseInScope hi hb).inverse.compose (h.poseInScope hi ha)
  · rintro a b c hane hbne hcne ⟨pa, ha⟩ ⟨pb, hb⟩ ⟨pc, hc⟩
    -- the poses in the scope, as elements of the group
    let A : Rigid R := ⟨pa, h.poseInScope hi ha⟩
    let B : Rigid R := ⟨pb, h.poseInScope hi hb⟩
    let C : Rigid R := ⟨pc, h.poseInScope hi hc⟩
    have hself : A⁻¹ * A = 1 := inv_mul_cancel A
    have hback : A⁻¹ * B = (B⁻¹ * A)⁻¹ := by rw [mul_inv_rev, inv_inv]
    have hchain : C⁻¹ * B * (B⁻¹ * A) = C⁻¹ * A := by rw [mul_assoc, mul_inv_cancel_left]
    refine ⟨?_, _, _, _, resolvePose_eq hbne (A := A) (B := B) ha hb,
      resolvePose_eq hcne (A := B) (B := C) hb hc, resolvePose_eq hcne (A := A) (B := C) ha hc,
      ?_, congrArg Subtype.val hchain⟩
    · rw [resolvePose_eq hane (A := A) (B := A) ha ha, hself, Rigid.val_one]
    · rw [resolvePose_eq hane (A := B) (B := A) hb ha, hback, Rigid.val_inv]

/-- From the frame that stands ahead, over the turned one, to that of the
scope. -/
theorem resolvePose_laws_turnedGraph :
    turnedGraph.Reachable ∧ (∀ v ∈ turnedGraph.vertices, v.pose.rotation.normSquared = 1) ∧
    turnedGraph.resolvePose "ahead" "ahead" = .ok .identity ∧
    ∃ ab bc ac, turnedGraph.resolvePose "ahead" "turned" = .ok ab ∧
      turnedGraph.resolvePose "turned" "world" = .ok bc ∧
      turnedGraph.resolvePose "ahead" "world" = .ok ac ∧
      turnedGraph.resolvePose "turned" "ahead" = .ok ab.inverse ∧ bc.compose ab = ac := by
  have hindexed := turnedGraph_reachable.indexed
  have hnorm : ∀ v ∈ turnedGraph.vertices, v.pose.rotation.normSquared = 1 := by
    simp only [turnedGraph, List.mem_toArray, List.forall_mem_cons]
    exact ⟨rfl, rfl, rfl, List.forall_mem_nil _⟩
  -- each of the three comes to rest at the frame of the scope
  let scope : Vertex Int := { name := "world", kind := .scope, pose := .identity }
  have hposes {name : String} (vs : List (Vertex Int))
      (h : turnedGraph.Takes turnedGraph.relativeReference name (.rests vs scope)) :
      ∃ p, turnedGraph.poseInScope name = .ok p :=
    (exists_poseInScope_iff hindexed).mpr ⟨vs, scope, h⟩
  obtain ⟨-, -, hlaws⟩ := resolvePose_laws turnedGraph_reachable hnorm
  refine ⟨turnedGraph_reachable, hnorm, hlaws "ahead" "turned" "world" (by decide) (by decide)
    (by decide) (hposes [ahead, turned] ?_) (hposes [turned] ?_) (hposes [] ?_)⟩
  · exact ⟨⟨.cons rfl (.cons rfl (.nil _)), by simp [turnedGraph]⟩, by simp [turnedGraph, scope], rfl⟩
  · exact ⟨⟨.cons rfl (.nil _), by simp [turnedGraph]⟩, by simp [turnedGraph, scope], rfl⟩
  · exact ⟨⟨.nil _, by simp⟩, by simp [turnedGraph, scope], rfl⟩

end Scene.FrameGraph

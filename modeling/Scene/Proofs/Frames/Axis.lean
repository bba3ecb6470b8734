/-
Directions of axes in frames.

An axis is given in a frame of its own: the one it is expressed in, or that of
its joint.  Its direction in another frame is that direction, turned by the pose
of the one frame in the other.  With `s` and `t` the poses of the two frames in
the scope this is `(t⁻¹ * s) • xyz`, where rigid transforms act on directions by
their rotations, so all that is said of directions here is said of a group that
acts (`resolveXyz_eq_ok_iff`).

Main statement: `resolveXyz_laws`.
-/
import Scene.Object.Joint
import Scene.Proofs.Frames.Change

namespace Scene.Axis

open FrameGraph

/-! ### The frames of an axis -/

section

variable {R : Type} (a : Axis R)

/-- A frame, or that of the joint in place of an empty name. -/
def orOwner (frame : String) : String := if frame = "" then a.owner else frame

/-- The frame that the direction is given in. -/
def ownFrame : String := a.orOwner a.expressedIn

/-- A frame that is named is not replaced by the joint. -/
theorem orOwner_of_ne {frame : String} (h : frame ≠ "") : a.orOwner frame = frame := if_neg h

end

/-! ### The direction in a frame -/

variable {R : Type} [CommRing R] {a : Axis R} {g : FrameGraph R}

/-- A direction is turned by the pose of its own frame in the one asked for,
unless one of the two has no name even with the joint in place of an empty one. -/
theorem resolveXyz_eq (a : Axis R) (g : FrameGraph R) (frame : String) : a.resolveXyz g frame =
    if a.ownFrame = "" ∨ a.orOwner frame = "" then
      .error [.frameNotFound "" "joint axis with no joint"]
    else
      (g.resolvePose a.ownFrame (a.orOwner frame)).map fun pose => pose.rotation.apply a.xyz := rfl

theorem exists_of_map_eq_ok {ε α β : Type} {f : α → β} {r : Except ε α} {y : β}
    (h : r.map f = .ok y) : ∃ x, r = .ok x ∧ f x = y := by
  cases r with
  | error e => cases h
  | ok x => exact ⟨x, rfl, Except.ok.inj h⟩

/-- There is a direction exactly if both frames have names and poses. -/
theorem resolveXyz_eq_ok_iff (hg : g.Reachable) (hrigid : g.IsRigid) {frame : String}
    {v : Vec3 R} : a.resolveXyz g frame = .ok v ↔
      a.ownFrame ≠ "" ∧ a.orOwner frame ≠ "" ∧ ∃ s t : Rigid R,
        g.poseInScope a.ownFrame = .ok s.val ∧ g.poseInScope (a.orOwner frame) = .ok t.val ∧
        v = (t⁻¹ * s) • a.xyz := by
  rw [resolveXyz_eq]
  by_cases hempty : a.ownFrame = "" ∨ a.orOwner frame = ""
  · rw [if_pos hempty]
    refine iff_of_false nofun ?_
    rintro ⟨hown, hframe, -⟩
    exact hempty.elim hown hframe
  · obtain ⟨hown, hframe⟩ := not_or.mp hempty
    rw [if_neg hempty]
    constructor
    · intro h
      obtain ⟨pose, hpose, rfl⟩ := exists_of_map_eq_ok h
      obtain ⟨ps, pt, hs, ht, rfl⟩ := resolvePose_eq_ok_iff.mp hpose
      -- a frame that has a name is not replaced by the scope
      rw [orScope, if_neg hframe] at ht
      exact ⟨hown, hframe, ⟨ps, hrigid.poseInScope hg.indexed hs⟩,
        ⟨pt, hrigid.poseInScope hg.indexed ht⟩, hs, ht, rfl⟩
    · rintro ⟨-, -, s, t, hs, ht, rfl⟩
      rw [resolvePose_eq hframe hs ht]
      rfl

/-- There is none exactly if a frame has no name or no pose. -/
theorem resolveXyz_eq_error_iff {frame : String} : (∃ es, a.resolveXyz g frame = .error es) ↔
    a.ownFrame = "" ∨ a.orOwner frame = "" ∨ (∃ es, g.poseInScope a.ownFrame = .error es) ∨
      ∃ es, g.poseInScope (a.orOwner frame) = .error es := by
  rw [resolveXyz_eq, ← or_assoc]
  by_cases hempty : a.ownFrame = "" ∨ a.orOwner frame = ""
  · rw [if_pos hempty]
    exact iff_of_true ⟨_, rfl⟩ (.inl hempty)
  · have hframe : a.orOwner frame ≠ "" := fun h => hempty (.inr h)
    rw [if_neg hempty, or_iff_right hempty, resolvePose, orScope, if_neg hframe]
    cases g.poseInScope a.ownFrame with
    | error es => cases g.poseInScope (a.orOwner frame) <;> simp [combine, Except.map]
    | ok p => cases g.poseInScope (a.orOwner frame) <;> simp [combine, Except.map]

/-- **Directions of axes change frames as the frames stand in each other.**  The
graph has rigid poses only.  The direction in a second frame is that in the first,
turned by the pose of the first frame in the second.  No direction is longer or
shorter than the one that is stored, and in the frame that it is given in it is
that one.  There is a direction unless, with the joint in place of an empty name,
one of the two frames has still no name or has no pose in the scope. -/
theorem resolveXyz_laws (a : Axis R) (hg : g.Reachable)
    (hrigid : ∀ v ∈ g.vertices, v.pose.rotation.normSquared = 1) :
    (∀ A B u v, A ≠ "" → B ≠ "" → a.resolveXyz g A = .ok u → a.resolveXyz g B = .ok v →
      ∃ ab, g.resolvePose A B = .ok ab ∧ v = ab.rotation.apply u) ∧
    (∀ A u, a.resolveXyz g A = .ok u → u.normSquared = a.xyz.normSquared) ∧
    (∀ A p, a.ownFrame ≠ "" → g.poseInScope a.ownFrame = .ok p → a.orOwner A = a.ownFrame →
      a.resolveXyz g A = .ok a.xyz) ∧
    ∀ A, (∃ es, a.resolveXyz g A = .error es) ↔
      a.ownFrame = "" ∨ a.orOwner A = "" ∨ (∃ es, g.poseInScope a.ownFrame = .error es) ∨
        ∃ es, g.poseInScope (a.orOwner A) = .error es := by
  have h : g.IsRigid := hrigid
  refine ⟨?_, ?_, ?_, fun _ => resolveXyz_eq_error_iff⟩
  · intro A B u v hA hB hu hv
    obtain ⟨-, -, s, t, hs, ht, rfl⟩ := (resolveXyz_eq_ok_iff hg h).mp hu
    obtain ⟨-, -, s', t', hs', ht', rfl⟩ := (resolveXyz_eq_ok_iff hg h).mp hv
    rw [a.orOwner_of_ne hA] at ht
    rw [a.orOwner_of_ne hB] at ht'
    -- both directions come from the same frame
    obtain rfl : s = s' := Subtype.ext (Except.ok.inj (hs.symm.trans hs'))
    refine ⟨_, resolvePose_eq hB ht ht', ?_⟩
    calc (t'⁻¹ * s) • a.xyz
        = (t'⁻¹ * t * (t⁻¹ * s)) • a.xyz := by rw [mul_assoc, mul_inv_cancel_left]
      _ = (t'⁻¹ * t) • (t⁻¹ * s) • a.xyz := mul_smul _ _ _
  · intro A u hu
    obtain ⟨-, -, s, t, -, -, rfl⟩ := (resolveXyz_eq_ok_iff hg h).mp hu
    exact Rigid.normSquared_smul _ _
  · intro A p hown hp hA
    let s : Rigid R := ⟨p, h.poseInScope hg.indexed hp⟩
    refine (resolveXyz_eq_ok_iff hg h).mpr ⟨hown, hA ▸ hown, s, s, hp, hA ▸ hp, ?_⟩
    rw [inv_mul_cancel, one_smul]

/-! ### A hinge and an arm -/

/-- The frame of a joint, turned about z by the angle of cosine 7/25. -/
def hinge : Vertex Rat where
  name := "hinge"
  kind := .joint
  pose := ⟨⟨1, 0, 0⟩, ⟨4 / 5, 0, 0, 3 / 5⟩⟩

/-- A frame in that of the joint, turned by the same angle once more. -/
def arm : Vertex Rat where
  name := "arm"
  kind := .frame
  pose := ⟨⟨0, 2, 0⟩, ⟨4 / 5, 0, 0, 3 / 5⟩⟩
  relativeTo := "hinge"

/-- The graph of the two. -/
def armGraph : FrameGraph Rat :=
  { vertices := #[{ name := "world", kind := .scope, pose := .identity }, hinge, arm]
    index := (((∅ : Std.TreeMap String Nat).insert "world" 0).insert "hinge" 1).insert "arm" 2 }

theorem armGraph_reachable : armGraph.Reachable :=
  .add (v := arm) (.add (v := hinge) (.ofName "world") rfl) rfl

/-- The axis of the joint, along the x axis of its frame. -/
def hingeAxis : Axis Rat where
  xyz := ⟨1, 0, 0⟩
  expressedIn := ""
  damping := 0
  friction := 0
  springReference := 0
  springStiffness := 0
  lower := 0
  upper := 1
  effort := 1
  velocity := 1
  stiffness := 0
  dissipation := 1
  owner := "hinge"

/-- In the arm the axis is turned back, in the world it is turned on; the arm in
the world is turned by both. -/
theorem resolveXyz_laws_hingeAxis :
    armGraph.Reachable ∧ (∀ v ∈ armGraph.vertices, v.pose.rotation.normSquared = 1) ∧
    hingeAxis.resolveXyz armGraph "arm" = .ok ⟨7 / 25, -24 / 25, 0⟩ ∧
    hingeAxis.resolveXyz armGraph "world" = .ok ⟨7 / 25, 24 / 25, 0⟩ ∧
    (∃ ab, armGraph.resolvePose "arm" "world" = .ok ab ∧
      (⟨7 / 25, 24 / 25, 0⟩ : Vec3 Rat) = ab.rotation.apply ⟨7 / 25, -24 / 25, 0⟩) ∧
    hingeAxis.resolveXyz armGraph "" = .ok ⟨1, 0, 0⟩ := by
  have hnorm : ∀ v ∈ armGraph.vertices, v.pose.rotation.normSquared = 1 := by decide +kernel
  have harm : hingeAxis.resolveXyz armGraph "arm" = .ok ⟨7 / 25, -24 / 25, 0⟩ := by
    decide +kernel
  have hworld : hingeAxis.resolveXyz armGraph "world" = .ok ⟨7 / 25, 24 / 25, 0⟩ := by
    decide +kernel
  have hhinge : armGraph.poseInScope "hinge" = .ok hinge.pose := by decide +kernel
  obtain ⟨hchange, -, hown, -⟩ := resolveXyz_laws hingeAxis armGraph_reachable hnorm
  exact ⟨armGraph_reachable, hnorm, harm, hworld,
    hchange "arm" "world" _ _ (by decide) (by decide) harm hworld,
    hown "" _ (by decide) hhinge rfl⟩

end Scene.Axis

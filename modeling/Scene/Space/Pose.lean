/-
Poses: rigid transforms of space.

A pose says where a frame stands in another one: it takes the coordinates of a
point in the first to its coordinates in the second, by a rotation followed by
a shift.  Composition follows the same reading, `(a.compose b)` being the pose of
a frame that stands at `b` in a frame that stands at `a`.

As with rotations, what needs no square root is stated over an arbitrary
scalar.
-/
import Scene.Space.Rotation

namespace Scene

/-- A rigid transform: a rotation about the origin, then a shift. -/
structure Pose (R : Type) where
  position : Vec3 R
  rotation : Rotation R
deriving DecidableEq, Repr

namespace Pose

variable {R : Type}

/-- The same position, and the same rotation up to the sign of its
quaternion. -/
instance [BEq R] [Neg R] : BEq (Pose R) :=
  ⟨fun a b => a.position == b.position && a.rotation == b.rotation⟩

/-! ### The group of poses -/

/-- The pose of a frame in itself. -/
def identity [OfNat R 0] [OfNat R 1] : Pose R := ⟨⟨0, 0, 0⟩, .identity⟩

/-- A shift without rotation. -/
def ofPosition [OfNat R 0] [OfNat R 1] (position : Vec3 R) : Pose R := ⟨position, .identity⟩

variable [Mul R] [Add R] [Sub R]

/-- The outer coordinates of a point given in the frame at this pose. -/
def apply (p : Pose R) (v : Vec3 R) : Vec3 R := p.position + p.rotation.apply v

/-- The pose of what stands at `b` in the frame at `a`. -/
def compose (a b : Pose R) : Pose R := ⟨a.apply b.position, a.rotation * b.rotation⟩

/-- The pose of the outer frame in the frame at this pose. -/
def inverse [Neg R] (p : Pose R) : Pose R :=
  ⟨-p.rotation.inverse.apply p.position, p.rotation.inverse⟩

/-! ### Floating-point poses -/

/-- The pose with a position and the three angles of a rotation. -/
def ofEuler (position angles : Vec3 Float) : Pose Float :=
  ⟨position, .ofEuler angles.x angles.y angles.z⟩

/-- Roll, pitch and yaw of the rotation. -/
def angles (p : Pose Float) : Vec3 Float := p.rotation.toEuler

/-- Whether no component is infinite or NaN. -/
def isFinite (p : Pose Float) : Bool := p.position.isFinite && p.rotation.isFinite

end Pose

end Scene

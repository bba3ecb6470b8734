/-
Rotations of space as quaternions.

A rotation is a quaternion `w + i·i + j·j + k·k`, meant to be of norm one; the
constructors see to that, and nothing below tests it again.  The product, the
inverse and the action on vectors use only addition, subtraction and
multiplication, and are stated over an arbitrary scalar.

The action does not go through the product `q v q⁻¹`: with `u` the vector part
of `q` and `t = 2 (u × v)` it is `t·w + u × t + v`, which agrees with the product
for quaternions of norm one.

A quaternion and its negative turn space in the same way, and so they are
equal in the sense of `==`.
-/
import Scene.Space.Vector

namespace Scene

/-- A rotation as the components of a quaternion. -/
structure Rotation (R : Type) where
  w : R
  i : R
  j : R
  k : R
deriving DecidableEq, Repr

namespace Rotation

variable {R : Type}

/-- Equal quaternions, or equal up to the sign. -/
instance [BEq R] [Neg R] : BEq (Rotation R) :=
  ⟨fun a b =>
    (a.w == b.w && a.i == b.i && a.j == b.j && a.k == b.k)
      || (a.w == -b.w && a.i == -b.i && a.j == -b.j && a.k == -b.k)⟩

/-! ### The group of rotations -/

/-- The rotation that moves nothing. -/
def identity [OfNat R 0] [OfNat R 1] : Rotation R := ⟨1, 0, 0, 0⟩

instance [Mul R] [Add R] [Sub R] : Mul (Rotation R) :=
  ⟨fun a b =>
    { w := a.w * b.w - a.i * b.i - a.j * b.j - a.k * b.k
      i := a.w * b.i + a.i * b.w + a.j * b.k - a.k * b.j
      j := a.w * b.j - a.i * b.k + a.j * b.w + a.k * b.i
      k := a.w * b.k + a.i * b.j - a.j * b.i + a.k * b.w }⟩

/-- The rotation back, which for norm one is the conjugate. -/
def inverse [Neg R] (q : Rotation R) : Rotation R := ⟨q.w, -q.i, -q.j, -q.k⟩

/-- The square of the norm. -/
def normSquared [Mul R] [Add R] (q : Rotation R) : R :=
  (q.i * q.i + q.k * q.k) + (q.j * q.j + q.w * q.w)

/-! ### The action on vectors -/

/-- The vector part of a rotation. -/
def vector (q : Rotation R) : Vec3 R := ⟨q.i, q.j, q.k⟩

/-- A vector, turned. -/
def apply [Mul R] [Add R] [Sub R] (q : Rotation R) (v : Vec3 R) : Vec3 R :=
  let c := q.vector.cross v
  let t := c + c
  t.scale q.w + q.vector.cross t + v

/-! ### Floating-point operations -/

/-- The norm of a quaternion. -/
def norm (q : Rotation Float) : Float := q.normSquared.sqrt

/-- A quaternion, divided by its norm. -/
def normalized (q : Rotation Float) : Rotation Float :=
  let n := q.norm
  ⟨q.w / n, q.i / n, q.j / n, q.k / n⟩

/-- Whether no component is infinite or NaN. -/
def isFinite (q : Rotation Float) : Bool :=
  q.i.isFinite && q.j.isFinite && q.k.isFinite && q.w.isFinite

/-- The rotation by `roll` about x, then by `pitch` about y, then by `yaw`
about z, all axes fixed. -/
def ofEuler (roll pitch yaw : Float) : Rotation Float :=
  let sr := (roll * 0.5).sin
  let cr := (roll * 0.5).cos
  let sp := (pitch * 0.5).sin
  let cp := (pitch * 0.5).cos
  let sy := (yaw * 0.5).sin
  let cy := (yaw * 0.5).cos
  { w := cr * cp * cy + sr * sp * sy
    i := sr * cp * cy - cr * sp * sy
    j := cr * sp * cy + sr * cp * sy
    k := cr * cp * sy - sr * sp * cy }

/-- Roll, pitch and yaw of a rotation.  At the two poles, where only a
combination of roll and yaw is determined, yaw is zero. -/
def toEuler (q : Rotation Float) : Vec3 Float :=
  let ww := q.w * q.w
  let ii := q.i * q.i
  let jj := q.j * q.j
  let kk := q.k * q.k
  let ij := q.i * q.j * 2
  let wk := q.w * q.k * 2
  let wj := q.w * q.j * 2
  let ik := q.i * q.k * 2
  let jk := q.j * q.k * 2
  let wi := q.w * q.i * 2
  -- the entries of the matrix of the rotation that the angles depend on
  let m00 := ww + ii - jj - kk
  let m01 := ij - wk
  let m02 := wj + ik
  let m10 := wk + ij
  let m20 := ik - wj
  let m21 := wi + jk
  let m22 := ww - ii - jj + kk
  if m20.abs < 1 then
    let pitch := -m20.asin
    let c := pitch.cos
    ⟨(m21 / c).atan2 (m22 / c), pitch, (m10 / c).atan2 (m00 / c)⟩
  else if m20 ≤ -1 then
    ⟨m01.atan2 m02, pi / 2, 0⟩
  else
    ⟨-m01.atan2 (-m02), -(pi / 2), 0⟩

end Rotation

end Scene

/-
The group of rigid transforms.

A rotation stands for a quaternion, and its product and its inverse are the
product and the conjugate of quaternions.  The action on vectors is defined by
cross products; that it is `q v q*` needs norm one (`quaternion_apply`), and so
does all that follows from it: to turn by a product is to turn twice, and to
turn by the inverse is to turn back.

Poses whose rotation has norm one are closed under composition and inversion,
and with these they are a group (`Rigid`), which acts on directions and leaves
their lengths alone.  To change frames is then to reckon in a group, and nothing
later looks at components.

The scalars are those of any commutative ring, every ordered field among them.
A norm is one exactly if its square is, so no root is needed.
-/
import Mathlib.Algebra.Group.MinimalAxioms
import Mathlib.Algebra.Quaternion
import Mathlib.Tactic.LinearCombination
import Scene.Space.Pose

namespace Scene

attribute [ext] Vec3 Rotation Pose

variable {R : Type} [CommRing R]

/-! ### Vectors -/

namespace Vec3

@[simp] theorem x_add (v w : Vec3 R) : (v + w).x = v.x + w.x := rfl
@[simp] theorem y_add (v w : Vec3 R) : (v + w).y = v.y + w.y := rfl
@[simp] theorem z_add (v w : Vec3 R) : (v + w).z = v.z + w.z := rfl

instance : Zero (Vec3 R) := ⟨⟨0, 0, 0⟩⟩

/-- Vectors are added component by component. -/
instance : AddCommGroup (Vec3 R) where
  add_assoc u v w := Vec3.ext (add_assoc _ _ _) (add_assoc _ _ _) (add_assoc _ _ _)
  zero_add v := Vec3.ext (zero_add _) (zero_add _) (zero_add _)
  add_zero v := Vec3.ext (add_zero _) (add_zero _) (add_zero _)
  neg_add_cancel v := Vec3.ext (neg_add_cancel _) (neg_add_cancel _) (neg_add_cancel _)
  add_comm v w := Vec3.ext (add_comm _ _) (add_comm _ _) (add_comm _ _)
  nsmul := nsmulRec
  zsmul := zsmulRec

/-- The quaternion without real part that a vector stands for. -/
def quaternion (v : Vec3 R) : Quaternion R := ⟨0, v.x, v.y, v.z⟩

@[simp] theorem re_quaternion (v : Vec3 R) : v.quaternion.re = 0 := rfl
@[simp] theorem imI_quaternion (v : Vec3 R) : v.quaternion.imI = v.x := rfl
@[simp] theorem imJ_quaternion (v : Vec3 R) : v.quaternion.imJ = v.y := rfl
@[simp] theorem imK_quaternion (v : Vec3 R) : v.quaternion.imK = v.z := rfl

/-- A vector is determined by its quaternion, which has no real part. -/
theorem quaternion_injective : Function.Injective (quaternion (R := R)) := fun _ _ h =>
  Vec3.ext (congrArg (·.imI) h) (congrArg (·.imJ) h) (congrArg (·.imK) h)

@[simp] theorem quaternion_add (v w : Vec3 R) :
    (v + w).quaternion = v.quaternion + w.quaternion :=
  Quaternion.ext _ _ (add_zero 0).symm rfl rfl rfl

/-- A vector and its quaternion are of one squared length. -/
theorem normSq_quaternion (v : Vec3 R) : Quaternion.normSq v.quaternion = v.normSquared := by
  simp only [normSquared, Quaternion.normSq_def', re_quaternion, imI_quaternion, imJ_quaternion,
    imK_quaternion]
  ring

end Vec3

/-! ### Rotations -/

namespace Rotation

/-- The quaternion that a rotation stands for. -/
def quaternion (q : Rotation R) : Quaternion R := ⟨q.w, q.i, q.j, q.k⟩

@[simp] theorem re_quaternion (q : Rotation R) : q.quaternion.re = q.w := rfl
@[simp] theorem imI_quaternion (q : Rotation R) : q.quaternion.imI = q.i := rfl
@[simp] theorem imJ_quaternion (q : Rotation R) : q.quaternion.imJ = q.j := rfl
@[simp] theorem imK_quaternion (q : Rotation R) : q.quaternion.imK = q.k := rfl

theorem quaternion_injective : Function.Injective (quaternion (R := R)) := fun _ _ h =>
  Rotation.ext (congrArg (·.re) h) (congrArg (·.imI) h) (congrArg (·.imJ) h) (congrArg (·.imK) h)

@[simp] theorem quaternion_identity : (identity : Rotation R).quaternion = 1 := rfl

/-- Rotations are composed as their quaternions are. -/
@[simp] theorem quaternion_mul (p q : Rotation R) :
    (p * q).quaternion = p.quaternion * q.quaternion := by
  ext
  · exact (Quaternion.re_mul p.quaternion q.quaternion).symm
  · exact (Quaternion.imI_mul p.quaternion q.quaternion).symm
  · exact (Quaternion.imJ_mul p.quaternion q.quaternion).symm
  · exact (Quaternion.imK_mul p.quaternion q.quaternion).symm

/-- The inverse of a rotation is the conjugate of its quaternion. -/
@[simp] theorem quaternion_inverse (q : Rotation R) :
    q.inverse.quaternion = star q.quaternion := by
  ext
  · exact (Quaternion.re_star q.quaternion).symm
  · exact (Quaternion.imI_star q.quaternion).symm
  · exact (Quaternion.imJ_star q.quaternion).symm
  · exact (Quaternion.imK_star q.quaternion).symm

/-- A rotation and its quaternion are of one squared norm. -/
theorem normSq_quaternion (q : Rotation R) : Quaternion.normSq q.quaternion = q.normSquared := by
  simp only [normSquared, Quaternion.normSq_def', re_quaternion, imI_quaternion, imJ_quaternion,
    imK_quaternion]
  ring

/-- The norm of the quaternion is one. -/
def HasUnitNorm (q : Rotation R) : Prop := q.normSquared = 1

theorem hasUnitNorm_iff {q : Rotation R} : q.HasUnitNorm ↔ Quaternion.normSq q.quaternion = 1 := by
  rw [normSq_quaternion, HasUnitNorm]

theorem hasUnitNorm_identity : (identity : Rotation R).HasUnitNorm := by
  rw [hasUnitNorm_iff, quaternion_identity, map_one]

/-- Unit norms are kept by composition. -/
theorem HasUnitNorm.mul {p q : Rotation R} (hp : p.HasUnitNorm) (hq : q.HasUnitNorm) :
    (p * q).HasUnitNorm := by
  rw [hasUnitNorm_iff] at hp hq ⊢
  rw [quaternion_mul, map_mul, hp, hq, one_mul]

/-- Unit norms are kept by inversion. -/
theorem HasUnitNorm.inverse {q : Rotation R} (hq : q.HasUnitNorm) : q.inverse.HasUnitNorm := by
  rw [hasUnitNorm_iff] at hq ⊢
  rw [quaternion_inverse, Quaternion.normSq_star, hq]

/-- The conjugate of a quaternion of norm one is its inverse. -/
theorem HasUnitNorm.star_mul {q : Rotation R} (hq : q.HasUnitNorm) :
    star q.quaternion * q.quaternion = 1 := by
  rw [Quaternion.star_mul_self, hasUnitNorm_iff.mp hq, Quaternion.coe_one]

/-! ### The action on vectors -/

/-- A rotation of norm one turns a vector by the product `q v q*`.  Without that
norm the two differ by a multiple of the vector. -/
theorem quaternion_apply {q : Rotation R} (hq : q.HasUnitNorm) (v : Vec3 R) :
    (q.apply v).quaternion = q.quaternion * v.quaternion * star q.quaternion := by
  have hnorm : q.i * q.i + q.k * q.k + (q.j * q.j + q.w * q.w) = 1 := hq
  ext
  · simp
    ring
  -- the other components differ by one of `v`, times what the norm is off by
  · simp [apply, vector, Vec3.scale, Vec3.cross]
    linear_combination (-v.x) * hnorm
  · simp [apply, vector, Vec3.scale, Vec3.cross]
    linear_combination (-v.y) * hnorm
  · simp [apply, vector, Vec3.scale, Vec3.cross]
    linear_combination (-v.z) * hnorm

theorem apply_identity (v : Vec3 R) : (identity : Rotation R).apply v = v := by
  apply Vec3.quaternion_injective
  rw [quaternion_apply hasUnitNorm_identity, quaternion_identity, star_one, one_mul, mul_one]

/-- To turn by a product is to turn by one factor after the other. -/
theorem apply_mul {p q : Rotation R} (hp : p.HasUnitNorm) (hq : q.HasUnitNorm) (v : Vec3 R) :
    (p * q).apply v = p.apply (q.apply v) := by
  -- vectors are told apart by their quaternions, whose products are associative
  apply Vec3.quaternion_injective
  simp only [quaternion_apply (hp.mul hq), quaternion_apply hp, quaternion_apply hq, quaternion_mul,
    star_mul, mul_assoc]

/-- A rotation of unit norm is additive. -/
theorem apply_add {q : Rotation R} (hq : q.HasUnitNorm) (v w : Vec3 R) :
    q.apply (v + w) = q.apply v + q.apply w := by
  apply Vec3.quaternion_injective
  simp only [quaternion_apply hq, Vec3.quaternion_add, mul_add, add_mul]

/-- To turn a vector leaves its length as it is. -/
theorem normSquared_apply {q : Rotation R} (hq : q.HasUnitNorm) (v : Vec3 R) :
    (q.apply v).normSquared = v.normSquared := by
  rw [← Vec3.normSq_quaternion, quaternion_apply hq, map_mul, map_mul, Quaternion.normSq_star,
    hasUnitNorm_iff.mp hq, one_mul, mul_one, Vec3.normSq_quaternion]

end Rotation

/-! ### Poses -/

namespace Pose

/-- The pose is a rigid transform: its rotation has norm one. -/
def IsRigid (p : Pose R) : Prop := p.rotation.HasUnitNorm

theorem isRigid_identity : (identity : Pose R).IsRigid := Rotation.hasUnitNorm_identity

/-- Rigid poses compose to rigid ones. -/
theorem IsRigid.compose {p q : Pose R} (hp : p.IsRigid) (hq : q.IsRigid) : (p.compose q).IsRigid :=
  Rotation.HasUnitNorm.mul hp hq

/-- Rigid poses have rigid inverses. -/
theorem IsRigid.inverse {p : Pose R} (hp : p.IsRigid) : p.inverse.IsRigid :=
  Rotation.HasUnitNorm.inverse hp

/-- Poses compose associatively, if the first two are rigid. -/
theorem compose_assoc {p q : Pose R} (hp : p.IsRigid) (hq : q.IsRigid) (r : Pose R) :
    (p.compose q).compose r = p.compose (q.compose r) := by
  apply Pose.ext
  · simp only [compose, apply]
    rw [Rotation.apply_mul hp hq, Rotation.apply_add hp, add_assoc]
  · apply Rotation.quaternion_injective
    simp only [compose, Rotation.quaternion_mul, mul_assoc]

theorem identity_compose (p : Pose R) : identity.compose p = p := by
  apply Pose.ext
  · exact (zero_add _).trans (Rotation.apply_identity _)
  · apply Rotation.quaternion_injective
    simp only [compose, identity, Rotation.quaternion_mul, Rotation.quaternion_identity, one_mul]

/-- The inverse of a rigid pose undoes it. -/
theorem inverse_compose {p : Pose R} (hp : p.IsRigid) : p.inverse.compose p = identity := by
  apply Pose.ext
  · exact neg_add_cancel _
  · apply Rotation.quaternion_injective
    simp only [compose, inverse, identity, Rotation.quaternion_mul, Rotation.quaternion_inverse,
      Rotation.quaternion_identity, Rotation.HasUnitNorm.star_mul hp]

/-- To go out and back again changes nothing, of a pose that need not be rigid
itself. -/
theorem inverse_compose_compose {p : Pose R} (hp : p.IsRigid) (q : Pose R) :
    p.inverse.compose (p.compose q) = q := by
  rw [← compose_assoc hp.inverse hp, inverse_compose hp, identity_compose]

end Pose

/-! ### The group -/

/-- A pose that is a rigid transform. -/
def Rigid (R : Type) [CommRing R] : Type := { p : Pose R // p.IsRigid }

namespace Rigid

/-- Rigid poses are multiplied by composing them. -/
instance : Mul (Rigid R) := ⟨fun p q => ⟨p.val.compose q.val, p.property.compose q.property⟩⟩

instance : One (Rigid R) := ⟨⟨.identity, Pose.isRigid_identity⟩⟩

instance : Inv (Rigid R) := ⟨fun p => ⟨p.val.inverse, p.property.inverse⟩⟩

/-- Rigid transforms are a group under composition. -/
instance : Group (Rigid R) := Group.ofLeftAxioms
  (fun p q r => Subtype.ext (Pose.compose_assoc p.property q.property r.val))
  (fun p => Subtype.ext (Pose.identity_compose p.val))
  (fun p => Subtype.ext (Pose.inverse_compose p.property))

@[simp] theorem val_mul (p q : Rigid R) : (p * q).val = p.val.compose q.val := rfl

@[simp] theorem val_one : (1 : Rigid R).val = .identity := rfl

@[simp] theorem val_inv (p : Rigid R) : (p⁻¹).val = p.val.inverse := rfl

/-- A rigid transform acts on directions by its rotation alone. -/
instance : MulAction (Rigid R) (Vec3 R) where
  smul p v := p.val.rotation.apply v
  one_smul := Rotation.apply_identity
  mul_smul p q := Rotation.apply_mul p.property q.property

/-- A rigid transform leaves lengths. -/
theorem normSquared_smul (p : Rigid R) (v : Vec3 R) : (p • v).normSquared = v.normSquared :=
  Rotation.normSquared_apply p.property v

end Rigid

end Scene

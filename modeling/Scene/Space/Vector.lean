/-
Vectors in space and in a plane.

The operations that need only addition and multiplication are stated over an
arbitrary scalar, so that the same definition is run on `Float` and reasoned
about over an exact field.  The ones that take a square root are for `Float`
alone.  No operation reassociates a sum or a product: on `Float` the order in
which three squares are added can be seen in the last digit.
-/

namespace Scene

/-- A vector in space. -/
structure Vec3 (R : Type) where
  x : R
  y : R
  z : R
deriving BEq, DecidableEq, Repr

/-- A vector in a plane. -/
structure Vec2 (R : Type) where
  x : R
  y : R
deriving BEq, DecidableEq, Repr

namespace Vec3

variable {R : Type}

/-! ### Exact operations -/

instance [Add R] : Add (Vec3 R) := ⟨fun a b => ⟨a.x + b.x, a.y + b.y, a.z + b.z⟩⟩

instance [Neg R] : Neg (Vec3 R) := ⟨fun a => ⟨-a.x, -a.y, -a.z⟩⟩

/-- Every component times `s`. -/
def scale [Mul R] (v : Vec3 R) (s : R) : Vec3 R := ⟨v.x * s, v.y * s, v.z * s⟩

/-- The cross product. -/
def cross [Mul R] [Sub R] (a b : Vec3 R) : Vec3 R :=
  ⟨a.y * b.z - a.z * b.y, a.z * b.x - a.x * b.z, a.x * b.y - a.y * b.x⟩

/-- The square of the length. -/
def normSquared [Mul R] [Add R] (v : Vec3 R) : R := v.x * v.x + v.y * v.y + v.z * v.z

/-! ### Floating-point operations -/

/-- The length of a vector. -/
def norm (v : Vec3 Float) : Float := v.normSquared.sqrt

/-- The vector of length one in the same direction, unless the vector is no
longer than `tolerance`. -/
def normalized? (v : Vec3 Float) (tolerance : Float) : Option (Vec3 Float) :=
  let n := v.norm
  if n ≤ tolerance then none else some ⟨v.x / n, v.y / n, v.z / n⟩

/-- The least component.  Of two the first is kept if it is at most the
second, so a NaN gives way to what comes after it. -/
def least (v : Vec3 Float) : Float :=
  let m := if v.x ≤ v.y then v.x else v.y
  if m ≤ v.z then m else v.z

/-- Whether no component is infinite or NaN. -/
def isFinite (v : Vec3 Float) : Bool := v.x.isFinite && v.y.isFinite && v.z.isFinite

end Vec3

/-- The distance between one and the next value of double width, below which
a length counts as zero. -/
def epsilon : Float := Float.ofBits 0x3CB0000000000000

/-- The circle constant at double width. -/
def pi : Float := Float.ofBits 0x400921FB54442D18

end Scene

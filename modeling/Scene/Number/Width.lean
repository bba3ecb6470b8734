/-
Binary floating-point widths, and the rounding of an exact ratio to one.

A width is given by the number of its significant bits and the number of its
exponent bits.  A value of a width is held as a *word*: the bits in which it
is stored, read as a natural number.  Without its sign a word is a
*magnitude*, and magnitudes of finite values are ordered as the values are,
with infinity next above the largest of them.

`Width.round` takes the ratio of two natural numbers to the magnitude of the
nearest value of the width, ties to the one whose last bit is zero.  It needs
no case for subnormal values nor for a carry into the next exponent: a
magnitude is the exponent field placed above the fraction, so adding a
significand that has become one bit too long steps to the next exponent by
itself.
-/
import Scene.Number.Numeral

namespace Scene.Number

/-- A binary floating-point width. -/
structure Width where
  /-- Number of significant bits, the leading one included. -/
  precision : Nat
  /-- Number of bits that hold the exponent. -/
  exponentBits : Nat
deriving DecidableEq, Repr

namespace Width

/-- The width of `Float`. -/
def double : Width := ⟨53, 11⟩

/-- The width of `Float32`. -/
def single : Width := ⟨24, 8⟩

variable (w : Width)

/-- The exponent of the last bit of a subnormal value. -/
def leastExponent : Int := 3 - (Nat.pow 2 (w.exponentBits - 1) : Nat) - w.precision

/-- The least magnitude with a full significand, which is also the weight of
the exponent field. -/
def exponentUnit : Nat := Nat.pow 2 (w.precision - 1)

/-- The magnitude of infinity; every larger one is a NaN. -/
def infinity : Nat := (Nat.pow 2 w.exponentBits - 1) * w.exponentUnit

/-- The magnitude of the NaN that is written when none is given. -/
def quietNaN : Nat := w.infinity + w.exponentUnit / 2

/-- The weight of the sign in a word. -/
def signUnit : Nat := Nat.pow 2 (w.precision + w.exponentBits - 1)

/-! ### Significand and exponent -/

/-- The value of a finite magnitude as `m * 2 ^ q`. -/
def unpack (magnitude : Nat) : Nat × Int :=
  let field := magnitude / w.exponentUnit
  let fraction := magnitude % w.exponentUnit
  if field = 0 then
    (fraction, w.leastExponent)
  else
    (fraction + w.exponentUnit, w.leastExponent + field - 1)

/-- The magnitude of `m * 2 ^ q`, for `m` at most one bit too long and `q` no
less than the least exponent; infinity when that is out of range. -/
def pack (m : Nat) (q : Int) : Nat :=
  min w.infinity (m + (q - w.leastExponent).toNat * w.exponentUnit)

/-! ### Rounding -/

/-- The integer nearest to `num / den`, ties to the even one. -/
def nearestEven (num den : Nat) : Nat :=
  let quotient := num / den
  let rest := 2 * (num % den)
  if rest < den ∨ (rest = den ∧ quotient % 2 = 0) then quotient else quotient + 1

/-- The greatest `e` with `2 ^ e ≤ num / den`, for positive arguments. -/
def binaryExponent (num den : Nat) : Int :=
  let e : Int := (num.log2 : Int) - den.log2
  if num * Nat.pow 2 (-e).toNat < den * Nat.pow 2 e.toNat then e - 1 else e

/-- The magnitude of the value nearest to `num / den`, ties to even. -/
def round (num den : Nat) : Nat :=
  if num = 0 then
    0
  else
    -- the weight of the last bit that is kept is `2 ^ q`
    let q := max w.leastExponent (binaryExponent num den - (w.precision - 1 : Nat))
    w.pack (nearestEven (num * Nat.pow 2 (-q).toNat) (den * Nat.pow 2 q.toNat)) q

end Width

namespace Numeral

/-! ### Words of numerals -/

/-- A power of ten beyond which every value of a width has become infinite,
and below whose inverse every one has become zero. -/
def decimalRange : Int := 400

/-- The magnitude nearest to a numeral at a width. -/
def magnitude (w : Width) : Numeral → Nat
  | .infinite _ => w.infinity
  | .nan _ => w.quietNaN
  | .finite _ digits exponent =>
    let top : Int := (Nat.toDigits 10 digits).length + exponent
    if digits = 0 ∨ top < -decimalRange then
      0
    else if top > decimalRange then
      w.infinity
    else
      w.round (digits * Nat.pow 10 exponent.toNat) (Nat.pow 10 (-exponent).toNat)

/-- The word of a numeral at a width, its sign included. -/
def word (w : Width) (n : Numeral) : Nat :=
  n.magnitude w + if n.negative then w.signUnit else 0

/-- The place of a numeral in the total order of a width: by value, the
negative zero before the positive one, a negative NaN before everything and a
positive one after. -/
def rank (w : Width) (n : Numeral) : Int :=
  if n.negative then -(n.magnitude w : Int) - 1 else n.magnitude w

/-- The value of a numeral at double width. -/
def toFloat (n : Numeral) : Float := Float.ofBits (n.word .double).toUInt64

/-- The value of a numeral at single width, rounded once. -/
def toFloat32 (n : Numeral) : Float32 := Float32.ofBits (n.word .single).toUInt32

end Numeral

end Scene.Number

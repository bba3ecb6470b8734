/-
The shortest decimal digits that read back.

The values that round to a given finite value form an interval around it: half
a unit of its last bit upwards and as much downwards, but only a quarter where
the value is a power of two, because there the grid below is twice as fine.
The ends belong to it exactly if the significand is even.

Of the multiples of `10 ^ k` that lie in the interval, the ones for the
greatest possible `k` have the fewest digits.  `Decimal.shortest` goes down
from a power of ten that is too large, takes the first grid that has a
point in the interval, and of two neighbours of the value in it the nearer
one, the upper one at a tie.  All comparisons are between natural numbers.
-/
import Scene.Number.Width

namespace Scene.Number

/-- A positive decimal `digits * 10 ^ exponent`. -/
structure Decimal where
  digits : Nat
  exponent : Int
deriving DecidableEq, Repr

/-- The positive rationals that round to one value, and that value, all in
units of `1 / scale`. -/
structure Interval where
  low : Nat
  value : Nat
  high : Nat
  scale : Nat
  /-- Whether the two ends belong to it. -/
  closed : Bool

namespace Interval

/-- The interval around the positive value with a given magnitude. -/
def around (w : Width) (magnitude : Nat) : Interval :=
  let (m, q) := w.unpack magnitude
  let up := Nat.pow 2 q.toNat
  let isPower := m = w.exponentUnit ∧ magnitude ≠ w.exponentUnit
  { low := (4 * m - if isPower then 1 else 2) * up
    value := 4 * m * up
    high := (4 * m + 2) * up
    scale := 4 * Nat.pow 2 (-q).toNat
    closed := m % 2 == 0 }

/-- Whether `n / d` lies in the interval. -/
def contains (i : Interval) (n d : Nat) : Bool :=
  let point := n * i.scale
  if i.closed then
    i.low * d ≤ point && point ≤ i.high * d
  else
    i.low * d < point && point < i.high * d

/-- The multiple of `10 ^ k` in the interval that is nearest to the value, as
the factor of `10 ^ k`; the upper one of two at the same distance. -/
def onGrid? (i : Interval) (k : Int) : Option Nat :=
  let up := Nat.pow 10 k.toNat
  let down := Nat.pow 10 (-k).toNat
  -- `below` and `below + 1` are the neighbours of the value on the grid
  let unit := up * i.scale
  let below := i.value * down / unit
  let rest := i.value * down % unit
  let hasBelow := i.contains (below * up) down
  let hasAbove := i.contains ((below + 1) * up) down
  if hasBelow && (!hasAbove || 2 * rest < unit) then
    some below
  else if hasAbove then
    some (below + 1)
  else
    none

/-- A power of ten above every point of the interval. -/
def decimalBound (i : Interval) : Int :=
  ((i.high.log2 : Int) - i.scale.log2 + 1) * 30103 / 100000 + 2

/-- The first of `tries` grids, from `10 ^ k` downwards, with a point in the
interval. -/
def search (i : Interval) : Nat → Int → Option Decimal
  | 0, _ => none
  | tries + 1, k =>
    match i.onGrid? k with
    | some digits => some ⟨digits, k⟩
    | none => i.search tries (k - 1)

end Interval

/-- The fewest digits that read back to the positive value of a magnitude,
and of those the nearest.  No value of a width needs more digits than its
significand has bits. -/
def Decimal.shortest (w : Width) (magnitude : Nat) : Decimal :=
  let i := Interval.around w magnitude
  (i.search w.precision i.decimalBound).getD ⟨0, 0⟩

/-! ### Positional notation -/

/-- The decimal without an exponent: zeros are added at either side until the
point, if one is needed, has a digit on both. -/
def Decimal.positional (d : Decimal) : String :=
  let ds := Nat.toDigits 10 d.digits
  let zeros (n : Nat) := List.replicate n '0'
  String.ofList <|
    if 0 ≤ d.exponent then
      ds ++ zeros d.exponent.toNat
    else
      let places := (-d.exponent).toNat
      let padded := zeros (places + 1 - ds.length) ++ ds
      padded.take (padded.length - places) ++ '.' :: padded.drop (padded.length - places)

/-- The text of a word: `NaN` without a sign, `inf` and `0` with one, and
otherwise the shortest digits in positional notation. -/
def Width.text (w : Width) (word : Nat) : String :=
  let magnitude := word % w.signUnit
  let sign := if word < w.signUnit then "" else "-"
  if magnitude > w.infinity then
    "NaN"
  else if magnitude = w.infinity then
    sign ++ "inf"
  else if magnitude = 0 then
    sign ++ "0"
  else
    sign ++ (Decimal.shortest w magnitude).positional

/-- The text of a number of double width. -/
def textOfFloat (x : Float) : String := Width.double.text x.toBits.toNat

/-- The text of a number of single width. -/
def textOfFloat32 (x : Float32) : String := Width.single.text x.toBits.toNat

end Scene.Number

/-
Numerals as they are written.

A numeral is read in two steps.  This module holds the first: it recognises
the spelling and keeps exactly what was written, an integer of decimal digits
and a power of ten, or one of the names of the infinities and of NaN.  The
second step (`Scene.Number.Width`) rounds that to a floating-point width, so
that one text read at two widths is rounded once each.

The sign of a NaN is kept, because the order in which waypoints are sorted
tells the two NaNs apart although nothing else does.

    numeral  ::= sign? ( name | digits? ( '.' digits? )? exponent? )
    exponent ::= ( 'e' | 'E' ) sign? digits
    name     ::= "inf" | "infinity" | "nan", in any case

with at least one digit before or after the point, and nothing around it: no
blank, no underscore, no other radix.
-/

namespace Scene.Number

/-- A numeral as written: `digits * 10 ^ exponent` with a sign, an infinity,
or a NaN. -/
inductive Numeral where
  | finite (negative : Bool) (digits : Nat) (exponent : Int)
  | infinite (negative : Bool)
  | nan (negative : Bool)
deriving DecidableEq, Repr

/-- Why a text is no numeral. -/
inductive NumeralError where
  | empty
  | invalid
deriving DecidableEq, Repr

/-- What is wrong, in words. -/
def NumeralError.message : NumeralError → String
  | .empty => "cannot parse float from empty string"
  | .invalid => "invalid float literal"

/-! ### Digits -/

/-- The value of a row of decimal digits. -/
def digitsValue (ds : List Char) : Nat :=
  ds.foldl (fun n c => 10 * n + (c.toNat - '0'.toNat)) 0

/-- A sign, if there is one, and what follows it; `true` is minus. -/
def splitSign : List Char → Bool × List Char
  | '-' :: cs => (true, cs)
  | '+' :: cs => (false, cs)
  | cs => (false, cs)

namespace Numeral

/-- The exponent of a numeral, from the characters after its digits. -/
def exponent? : List Char → Option Int
  | [] => some 0
  | c :: cs =>
    let (negative, ds) := splitSign cs
    if (c == 'e' || c == 'E') && !ds.isEmpty && ds.all Char.isDigit then
      some (if negative then -(digitsValue ds : Int) else digitsValue ds)
    else
      none

/-- Digits, point, digits and exponent: the digits as one integer, and the
power of ten that goes with it. -/
def magnitude? (cs : List Char) : Option (Nat × Int) :=
  let whole := cs.takeWhile Char.isDigit
  let rest := cs.dropWhile Char.isDigit
  let (fraction, rest) := match rest with
    | '.' :: r => (r.takeWhile Char.isDigit, r.dropWhile Char.isDigit)
    | _ => ([], rest)
  if whole.isEmpty && fraction.isEmpty then
    none
  else
    (exponent? rest).map fun e => (digitsValue (whole ++ fraction), e - fraction.length)

/-- Read a numeral. -/
def ofChars? (cs : List Char) : Option Numeral :=
  let (negative, body) := splitSign cs
  let name := String.ofList (body.map Char.toLower)
  if name == "inf" || name == "infinity" then
    some (.infinite negative)
  else if name == "nan" then
    some (.nan negative)
  else
    (magnitude? body).map fun (digits, exponent) => .finite negative digits exponent

/-- Read a numeral from a string. -/
def ofString (s : String) : Except NumeralError Numeral :=
  if s.isEmpty then
    .error .empty
  else
    match ofChars? s.toList with
    | some n => .ok n
    | none => .error .invalid

/-- Zero, without a sign. -/
def zero : Numeral := .finite false 0 0

/-- The sign of a numeral; `true` is minus. -/
def negative : Numeral → Bool
  | .finite s _ _ => s
  | .infinite s => s
  | .nan s => s

end Numeral

end Scene.Number

/-
Integers as they are written.

The digits are read from the left, and the first thing that goes wrong is the
one reported: a character that is no digit, or a value that has left the
range.  So a text that is too large and also has a bad character further on is
too large.
-/

namespace Scene.Number

/-- Why a text is no integer of a given range. -/
inductive IntegerError where
  | empty
  | invalidDigit
  | tooLarge
  | tooSmall
deriving DecidableEq, Repr

/-- What is wrong, in words. -/
def IntegerError.message : IntegerError → String
  | .empty => "cannot parse integer from empty string"
  | .invalidDigit => "invalid digit found in string"
  | .tooLarge => "number too large to fit in target type"
  | .tooSmall => "number too small to fit in target type"

/-- The value of a digit in a radix up to sixteen. -/
def digitValue? (radix : Nat) (c : Char) : Option Nat :=
  let value :=
    if c.isDigit then c.toNat - '0'.toNat
    else if 'a' ≤ c ∧ c ≤ 'f' then c.toNat - 'a'.toNat + 10
    else if 'A' ≤ c ∧ c ≤ 'F' then c.toNat - 'A'.toNat + 10
    else radix
  if value < radix then some value else none

/-- Read digits behind a value already read; past `bound` the error is
`overflow`. -/
def readDigits (radix bound : Nat) (overflow : IntegerError) :
    Nat → List Char → Except IntegerError Nat
  | value, [] => .ok value
  | value, c :: cs =>
    match digitValue? radix c with
    | none => .error .invalidDigit
    | some d =>
      if bound < radix * value + d then .error overflow
      else readDigits radix bound overflow (radix * value + d) cs

/-- Read a natural number without a sign. -/
def readUnsigned (radix bound : Nat) (cs : List Char) : Except IntegerError Nat :=
  if cs.isEmpty then .error .empty else readDigits radix bound .tooLarge 0 cs

/-- Read a natural number up to `bound`, which a plus sign may precede. -/
def readNatural (bound : Nat) : List Char → Except IntegerError Nat
  | [] => .error .empty
  | ['+'] => .error .invalidDigit
  | '+' :: cs => readDigits 10 bound .tooLarge 0 cs
  | cs => readDigits 10 bound .tooLarge 0 cs

/-- Read an integer from `-(bound + 1)` to `bound`, with or without a sign. -/
def readInteger (bound : Nat) : List Char → Except IntegerError Int
  | ['-'] => .error .invalidDigit
  | '-' :: cs => (readDigits 10 (bound + 1) .tooSmall 0 cs).map fun n => -(n : Int)
  | cs => (readNatural bound cs).map Int.ofNat

end Scene.Number

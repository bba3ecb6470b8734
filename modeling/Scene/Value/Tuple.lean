/-
Rows of numbers as text.

A vector, a pose and a color are written as numbers with blanks between them.
Reading such a row can fail in two ways, a word that is no number and a wrong
number of words, and the first kind wins wherever in the row it stands: a row
of the wrong length with a bad word in it is blamed for the word.
-/
import Scene.Number.Shortest
import Scene.Space.Vector
import Scene.Text.Blank

namespace Scene

/-- Why a text is no value of a kind. -/
inductive ValueError where
  /-- A word of it is no number. -/
  | invalidNumber (word kind : String)
  /-- It has a wrong number of words. -/
  | wrongArity (kind : String) (expected actual : Nat)
deriving DecidableEq, Repr

/-- What is wrong, in words. -/
def ValueError.message : ValueError → String
  | .invalidNumber word kind => s!"invalid number '{word}' in {kind}"
  | .wrongArity kind expected actual => s!"expected {expected} values for {kind}, got {actual}"

namespace Number

/-- The number that a word spells. -/
def float? (word : String) : Option Float :=
  (Numeral.ofString word).toOption.map Numeral.toFloat

/-- The number of single width that a word spells. -/
def float32? (word : String) : Option Float32 :=
  (Numeral.ofString word).toOption.map Numeral.toFloat32

end Number

/-! ### Rows of a fixed length -/

/-- A row of `n` numbers while it is read: what stands in it, and how many
numbers there were so far. -/
structure Filling (n : Nat) where
  row : Vector Float n
  count : Nat

namespace Filling

variable {n : Nat}

/-- The row before the first number. -/
def blank : Filling n := ⟨Vector.replicate n 0, 0⟩

/-- The row after one more number.  A number for which there is no place left
is counted, but not kept. -/
def put (f : Filling n) (x : Float) : Filling n :=
  { row := if h : f.count < n then f.row.set f.count x h else f.row
    count := f.count + 1 }

/-- The row after some words, which end at the first one that is no number. -/
def read (kind : String) (f : Filling n) : List String → Except ValueError (Filling n)
  | [] => .ok f
  | word :: words =>
    match Number.float? word with
    | some x => (f.put x).read kind words
    | none => .error (.invalidNumber word kind)

end Filling

/-- Read exactly `n` numbers.  A word that is no number is reported before the
count of the words is looked at. -/
def readTuple (kind : String) (n : Nat) (text : String) :
    Except ValueError (Vector Float n) := do
  let f ← Filling.blank.read kind (Text.words text)
  if f.count = n then .ok f.row else .error (.wrongArity kind n f.count)

/-- Numbers as words with one space between them. -/
def textOfTuple (values : List Float) : String :=
  " ".intercalate (values.map Number.textOfFloat)

/-! ### Vectors -/

namespace Vec3

/-- Read a vector from three numbers. -/
def ofString (text : String) : Except ValueError (Vec3 Float) :=
  (readTuple "vector3" 3 text).map fun v => ⟨v[0], v[1], v[2]⟩

/-- The three components. -/
def text (v : Vec3 Float) : String := textOfTuple [v.x, v.y, v.z]

end Vec3

namespace Vec2

/-- Read a vector from two numbers. -/
def ofString (text : String) : Except ValueError (Vec2 Float) :=
  (readTuple "vector2" 2 text).map fun v => ⟨v[0], v[1]⟩

/-- The two components. -/
def text (v : Vec2 Float) : String := textOfTuple [v.x, v.y]

end Vec2
end Scene

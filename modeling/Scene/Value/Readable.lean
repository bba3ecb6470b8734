/-
Values that stand as the text of an element or of an attribute.

A type is `Readable` if a text can be read as a value of it, and `Writable` if
a value of it has a text.  The failure of a reader is kept as the words that
say what is wrong, since every place that reads a value only quotes them.

Times of waypoints are read as numerals and not as numbers: their order
depends on the sign of a NaN, which a `Float` does not keep.
-/
import Scene.Number.Integer
import Scene.Value.Color
import Scene.Value.PoseText

namespace Scene

/-- Types whose values can be read from a text. -/
class Readable (α : Type) where
  /-- The value, or what is wrong with the text. -/
  read : String → Except String α

/-- Types whose values have a text. -/
class Writable (α : Type) where
  /-- The text of a value. -/
  write : α → String

/-! ### Numbers -/

instance : Readable Number.Numeral :=
  ⟨fun s => (Number.Numeral.ofString s).mapError Number.NumeralError.message⟩

instance : Readable Float :=
  ⟨fun s => (Readable.read s).map Number.Numeral.toFloat⟩

instance : Readable UInt64 :=
  ⟨fun s => ((Number.readNatural 0xFFFFFFFFFFFFFFFF s.toList).map Nat.toUInt64).mapError
    Number.IntegerError.message⟩

instance : Readable Int32 :=
  ⟨fun s => ((Number.readInteger 0x7FFFFFFF s.toList).map Int.toInt32).mapError
    Number.IntegerError.message⟩

instance : Writable Float := ⟨Number.textOfFloat⟩

instance : Writable UInt64 := ⟨fun n => toString n.toNat⟩

/-! ### Truth values -/

/-- A truth value by its name alone. -/
instance : Readable Bool :=
  ⟨fun s =>
    if s == "true" then .ok true
    else if s == "false" then .ok false
    else .error "provided string was not `true` or `false`"⟩

instance : Writable Bool := ⟨fun b => if b then "true" else "false"⟩

/-- A flag of an element: a name or a digit, with blanks around it. -/
def readFlag? (s : String) : Option Bool :=
  let word := Text.trim s
  if word == "true" || word == "1" then some true
  else if word == "false" || word == "0" then some false
  else none

/-! ### Rows of numbers -/

instance : Readable (Vec3 Float) := ⟨fun s => (Vec3.ofString s).mapError ValueError.message⟩

instance : Readable (Vec2 Float) := ⟨fun s => (Vec2.ofString s).mapError ValueError.message⟩

instance : Readable (Pose Float) := ⟨fun s => (Pose.ofString s).mapError ValueError.message⟩

instance : Readable Color := ⟨fun s => (Color.ofString s).mapError ValueError.message⟩

instance : Writable (Vec3 Float) := ⟨Vec3.text⟩

instance : Writable (Vec2 Float) := ⟨Vec2.text⟩

instance : Writable (Pose Float) := ⟨Pose.text⟩

instance : Writable Color := ⟨Color.text⟩

instance : Writable String := ⟨id⟩

end Scene

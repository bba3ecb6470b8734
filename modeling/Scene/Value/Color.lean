/-
Colors: red, green, blue and opacity at single width.

A color is written with all four components and read from three or four; a
missing opacity is one.
-/
import Scene.Value.Tuple

namespace Scene

/-- A color with its opacity. -/
structure Color where
  r : Float32
  g : Float32
  b : Float32
  a : Float32
deriving BEq, Repr

namespace Color

/-- Opaque black, the color where none is given. -/
def black : Color := ⟨0, 0, 0, 1⟩

/-- Opaque white. -/
def white : Color := ⟨1, 1, 1, 1⟩

/-- The number of a word of a color. -/
def component (word : String) : Except ValueError Float32 :=
  match Number.float32? word with
  | some x => .ok x
  | none => .error (.invalidNumber word "color")

/-- Read a color from three or four numbers. -/
def ofString (text : String) : Except ValueError Color := do
  match ← (Text.words text).mapM component with
  | [r, g, b] => .ok ⟨r, g, b, 1⟩
  | [r, g, b, a] => .ok ⟨r, g, b, a⟩
  | values => .error (.wrongArity "color" 4 values.length)

/-- The four components. -/
def text (c : Color) : String :=
  " ".intercalate ([c.r, c.g, c.b, c.a].map Number.textOfFloat32)

end Color

end Scene

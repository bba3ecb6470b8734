/-
Objects with names and places.

Objects of one kind that stand side by side are told apart by their names.
They are kept in a list, in document order, and a list is only added to when
the name is free.

Most objects also have a place: a pose, and the frame that it is expressed in.
-/
import Scene.Diagnostic.Error
import Scene.Frames.SemanticPose

namespace Scene

/-! ### Names -/

/-- Types of objects that are told apart by their names. -/
class Named (α : Type) where
  /-- The word for the kind of object, which is also the tag of its element. -/
  kind : String
  /-- The name of an object. -/
  name : α → String

variable {α : Type} [Named α]

/-- The first object of a name. -/
def named? (items : List α) (name : String) : Option α :=
  items.find? fun x => Named.name x == name

/-- Whether there is an object of a name. -/
def nameExists (items : List α) (name : String) : Bool := (named? items name).isSome

/-- Add an object at the end, unless its name is taken. -/
def addUnique (items : List α) (item : α) : List α × Errors :=
  if nameExists items (Named.name item) then
    (items, [.duplicateName (Named.kind α) (Named.name item)])
  else
    (items ++ [item], [])

/-! ### Places -/

/-- A pose as it is written, and the frame that it is expressed in; an empty
name means the frame that the kind of object implies. -/
structure Placement where
  pose : Pose Float := .identity
  relativeTo : String := ""
deriving BEq, Repr

namespace Placement

/-- The semantic pose of an object that is a frame of its scope. -/
def ofVertex (p : Placement) (name resolveTo : String) : SemanticPose Float :=
  .ofVertex name p.pose p.relativeTo resolveTo

/-- The semantic pose of an object that belongs to a frame of its scope. -/
def ofChild (p : Placement) (parent : String) : SemanticPose Float :=
  .ofChild p.pose p.relativeTo parent

/-- The frame of an object, expressed in `base` if the place names none. -/
def vertex (p : Placement) (name : String) (kind : VertexKind) (base attachedTo : String) :
    Vertex Float :=
  { name, kind, pose := p.pose
    relativeTo := if p.relativeTo = "" then base else p.relativeTo
    attachedTo }

end Placement

end Scene

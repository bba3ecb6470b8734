/-
Writing fields.

A field is written as a child with its value as text.  A place is left out where
it says nothing: the identity in the frame that the kind of object implies.
-/
import Scene.Markup.Element
import Scene.Object.Named
import Scene.Value.Readable

namespace Scene.Element

/-- The element with a tag and nothing else. -/
def ofTag (tag : String) : Element := { tag }

/-- Add a child with a value as its text. -/
def pushValue {α : Type} [Writable α] (e : Element) (tag : String) (value : α) : Element :=
  e.push { tag, text := some (Writable.write value) }

/-- Add several children. -/
def pushAll (e : Element) (children : List Element) : Element := children.foldl push e

/-- Set an attribute, unless its value is empty. -/
def setNonempty (e : Element) (name value : String) : Element :=
  if value = "" then e else e.setAttribute name value

/-- Add the place of an object, if it says something. -/
def pushPlacement (e : Element) (p : Placement) : Element :=
  if p.pose == .identity && p.relativeTo = "" then
    e
  else
    e.push (({ tag := "pose", text := some p.pose.text } : Element).setNonempty "relative_to"
      p.relativeTo)

end Scene.Element

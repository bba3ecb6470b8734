/-
Documents: worlds, or one object that stands alone.

A document that is read holds either worlds or at most one model, light or
actor.  Editing keeps the two apart in storage but does not exclude one by the
other.
-/
import Scene.Object.World

namespace Scene

/-- An object that stands alone. -/
inductive Standalone where
  | model (m : Model)
  | light (l : Light)
  | actor (a : Actor)
deriving BEq

/-- A document. -/
structure Document where
  version : String
  worlds : List World := []
  content : Option Standalone := none
  /-- Children of its element that mean nothing here, kept to be written. -/
  unknown : List Element := []
deriving BEq

namespace Document

/-- The version of the format that is read and written. -/
def supportedVersion : String := "1.9"

/-- The document that holds nothing. -/
def empty : Document := { version := supportedVersion }

/-- Add a world, unless its name is taken. -/
def addWorld (d : Document) (w : World) : Document × Errors :=
  let (worlds, es) := addUnique d.worlds w
  ({ d with worlds }, es)

/-- Remove all worlds. -/
def clearWorlds (d : Document) : Document := { d with worlds := [] }

/-- Make a model the object that stands alone. -/
def setModel (d : Document) (m : Model) : Document := { d with content := some (.model m) }

/-- Make a light the object that stands alone. -/
def setLight (d : Document) (l : Light) : Document := { d with content := some (.light l) }

/-- Make an actor the object that stands alone. -/
def setActor (d : Document) (a : Actor) : Document := { d with content := some (.actor a) }

end Document

end Scene

/-
Reading worlds and documents.

What a text says does not depend on the policy, nor on the document that was
there before.  A text that is no markup is one error, and leaves the document
as it was; any other text replaces it, whatever is wrong with the content.
-/
import Scene.Markup.Tree
import Scene.Object.Document
import Scene.Reading.Actor
import Scene.Reading.Model

namespace Scene

namespace World

/-- The tags known in a world. -/
def knownTags : List String :=
  ["gravity", "magnetic_field", "model", "frame", "light", "actor", "physics", "scene",
    "atmosphere", "spherical_coordinates", "wind", "audio", "gui", "plugin", "state"]

/-- Read a world, which must have a name. -/
def ofElement (e : Element) : Reported (Option World) := do
  match ← e.readName with
  | none => pure none
  | some name =>
    let standard : World := {}
    let unknown ← e.unknownChildren knownTags
    let gravity ← e.readValueD "gravity" standard.gravity
    let magneticField ← e.readValueD "magnetic_field" standard.magneticField
    let models ← e.readAll Model.ofElement
    let frames ← e.readAll Frame.ofElement
    let lights ← e.readAll Light.ofElement
    let actors ← e.readAll Actor.ofElement
    let world : World :=
      { name, gravity, magneticField, models, frames
        -- a light that was read has no owner yet
        lights := lights.map fun l => { l with owner := worldFrame }
        actors, unknown }
    let (world, es) := world.rebuildScope
    Reported.failAll es
    pure (some world)

end World

namespace Document

/-- The tag of a document. -/
def tag : String := "sdf"

/-- The tags known in a document. -/
def knownTags : List String := ["world", "model", "light", "actor"]

/-- Read the version that a document must name. -/
def readVersion (e : Element) : Reported String :=
  match e.attribute? "version" with
  | none => do
    Reported.fail (.missingAttribute "version" tag)
    pure supportedVersion
  | some version => do
    if version ≠ supportedVersion then
      Reported.report (.remark "document version differs from the supported version"
        [("version", version), ("supported", supportedVersion)])
    pure version

/-- Choose the object that stands alone: the first one, and none beside
worlds. -/
def chooseContent (worlds : List World) (found : List Standalone) :
    Reported (Option Standalone) := do
  if !worlds.isEmpty ∧ !found.isEmpty then
    Reported.fail (.invalidElement tag "document"
      "a document with worlds cannot also hold a standalone model, light or actor")
    pure none
  else
    if found.length > 1 then
      Reported.fail (.invalidElement tag "document"
        s!"a document holds at most one model, light or actor, found {found.length}")
    pure found.head?

/-- Read a document. -/
def ofElement (e : Element) : Reported Document := do
  if e.tag ≠ tag then
    Reported.fail (.notADocument e.tag)
    pure empty
  else
    let version ← readVersion e
    let unknown ← e.unknownChildren knownTags
    let worlds ← e.readAll World.ofElement
    let models ← e.readAll Model.ofElement
    let lights ← e.readAll Light.ofElement
    let actors ← e.readAll Actor.ofElement
    let content ← chooseContent worlds
      (models.map .model ++ lights.map .light ++ actors.map .actor)
    pure { version, worlds, content, unknown }

/-! ### Loading -/

/-- What loading a text gives. -/
structure Loaded where
  document : Document
  errors : Errors
  log : List LogEvent

/-- The last event of the log after a text was read. -/
def summary (d : Document) (errorCount : Nat) : LogEvent :=
  { level := .debug
    message := "loaded scene description"
    fields :=
      [("version", d.version), ("worlds", toString d.worlds.length),
        ("standalone", Writable.write d.content.isSome), ("errors", toString errorCount)] }

/-- Load a text in place of a document. -/
def load (before : Document) (policy : Policy) (text : String) : Loaded :=
  let markup := Markup.readDocument text
  match markup.value with
  | .error e =>
    { document := before
      errors := [.parse e.message]
      log := markup.log policy }
  | .ok root =>
    -- nothing of `before` is kept
    let read := ofElement root
    let errors := read.errors policy
    { document := read.value
      errors
      log := markup.log policy ++ read.log policy ++ [summary read.value errors.length] }

end Document

end Scene

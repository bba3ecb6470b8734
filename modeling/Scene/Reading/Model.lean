/-
Reading models.

Models nest, and reading follows the nesting of elements: a nested model is read
whole, its graph included, before the model around it builds its own.
-/
import Scene.Object.Model
import Scene.Reading.Joint
import Scene.Reading.Link

namespace Scene

/-- The tags known in an explicit frame. -/
def Frame.knownTags : List String := ["pose"]

/-- Read an explicit frame, which must have a name. -/
def Frame.ofElement (e : Element) : Reported (Option Frame) := do
  match ← e.readFrameName with
  | none => pure none
  | some name =>
    let placement ← e.readPlacement
    e.checkChildren knownTags
    pure (some { name, attachedTo := (e.attribute? "attached_to").getD "", placement })

namespace Model

/-- The tags known in a model. -/
def knownTags : List String :=
  ["pose", "static", "self_collide", "allow_auto_disable", "enable_wind", "link", "joint", "frame",
    "model", "plugin", "gripper"]

/-- Read a model, given what reading its nested models gave. -/
def assemble (e : Element) (nested : List (Reported (Option Model))) :
    Reported (Option Model) := do
  match ← e.readFrameName with
  | none => pure none
  | some name =>
    let placement ← e.readPlacement
    let unknown ← e.unknownChildren knownTags
    let isStatic ← e.readFlagD "static" false
    let selfCollide ← e.readFlagD "self_collide" false
    let canonicalLink := (e.attribute? "canonical_link").getD ""
    let links ← e.readAll Link.ofElement
    let joints ← e.readAll Joint.ofElement
    let frames ← e.readAll Frame.ofElement
    let models ← Element.keepUnique [] nested
    if !isStatic ∧ links.isEmpty ∧ models.isEmpty then
      Reported.fail (.modelWithoutLink e.describe)
    let model : Model :=
      { name, placement, isStatic, selfCollide, canonicalLink, links, joints, frames, models
        unknown }
    let (model, es) := model.rebuildScope
    Reported.failAll es
    pure (some model)

mutual

/-- Read a model. -/
def ofElement : Element → Reported (Option Model)
  | ⟨tag, attributes, text, children⟩ =>
    assemble ⟨tag, attributes, text, children⟩ (ofChildren children)

/-- Read the models among the children of an element. -/
def ofChildren : List Element → List (Reported (Option Model))
  | [] => []
  | c :: cs => if c.tag == "model" then ofElement c :: ofChildren cs else ofChildren cs

end

end Model

end Scene

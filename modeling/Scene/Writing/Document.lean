/-
Writing actors, worlds and documents.

A world always says what its gravity and its magnetic field are, and an actor
always has a script.
-/
import Scene.Markup.Rendering
import Scene.Object.Document
import Scene.Writing.Model

namespace Scene

open Element

/-! ### Actors -/

/-- The element of a skin. -/
def Skin.toElement (s : Skin) : Element :=
  ((ofTag "skin").pushValue "filename" s.filename).pushValue "scale" s.scale

/-- The element of an animation. -/
def Animation.toElement (a : Animation) : Element :=
  let e := (ofTag "animation").setAttribute "name" a.name
  let e := e.pushValue "filename" a.filename
  let e := e.pushValue "scale" a.scale
  e.pushValue "interpolate_x" a.interpolateX

/-- The element of a waypoint. -/
def Waypoint.toElement (w : Waypoint) : Element :=
  ((ofTag "waypoint").pushValue "time" w.time).pushValue "pose" w.pose

/-- The element of a trajectory. -/
def Trajectory.toElement (t : Trajectory) : Element :=
  let e := (ofTag "trajectory").setAttribute "id" (Writable.write t.id)
  let e := e.setAttribute "type" t.animation
  let e := e.setAttribute "tension" (Writable.write t.tension)
  e.pushAll (t.waypoints.map Waypoint.toElement)

/-- The element of a script. -/
def Script.toElement (s : Script) : Element :=
  let e := (ofTag "script").pushValue "loop" s.loops
  let e := e.pushValue "delay_start" s.delayStart
  let e := e.pushValue "auto_start" s.autoStart
  e.pushAll (s.trajectories.map Trajectory.toElement)

/-- The element of an actor. -/
def Actor.toElement (a : Actor) : Element :=
  let e := ((ofTag "actor").setAttribute "name" a.name).pushPlacement a.placement
  let e := e.pushAll (a.skin.toList.map Skin.toElement)
  let e := e.pushAll (a.animations.map Animation.toElement)
  let e := e.push a.script.toElement
  let e := e.pushAll (a.links.map Link.toElement)
  e.pushAll (a.joints.map Joint.toElement)

/-! ### Worlds and documents -/

/-- The element of a world. -/
def World.toElement (w : World) : Element :=
  let e := (ofTag "world").setAttribute "name" w.name
  let e := e.pushValue "gravity" w.gravity
  let e := e.pushValue "magnetic_field" w.magneticField
  let e := e.pushAll (w.models.map Model.toElement)
  let e := e.pushAll (w.frames.map Frame.toElement)
  let e := e.pushAll (w.lights.map Light.toElement)
  let e := e.pushAll (w.actors.map Actor.toElement)
  e.pushAll w.unknown

/-- The element of an object that stands alone. -/
def Standalone.toElement : Standalone → Element
  | .model m => m.toElement
  | .light l => l.toElement
  | .actor a => a.toElement

/-- The element of a document. -/
def Document.toElement (d : Document) : Element :=
  let e := (ofTag "sdf").setAttribute "version" d.version
  let e := e.pushAll (d.worlds.map World.toElement)
  let e := e.pushAll (d.content.toList.map Standalone.toElement)
  e.pushAll d.unknown

/-- A document as text. -/
def Document.toText (d : Document) : String := d.toElement.toDocument

end Scene

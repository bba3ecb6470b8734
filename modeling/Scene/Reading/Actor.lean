/-
Reading actors.

The waypoints of a trajectory are put in the order of their times.  The order is
total, with the two NaNs at its ends, and waypoints of equal times stay in
document order.
-/
import Scene.Object.Actor
import Scene.Reading.Joint
import Scene.Reading.Link

namespace Scene

/-! ### Animations -/

/-- The tags known in an animation. -/
def Animation.knownTags : List String := ["filename", "scale", "interpolate_x"]

/-- Read an animation, which must have a name and a file. -/
def Animation.ofElement (e : Element) : Reported (Option Animation) := do
  match ← e.readName with
  | none => pure none
  | some name =>
    e.checkChildren knownTags
    match e.childText? "filename" with
    | none =>
      Reported.fail (.missingElement "filename" e.describe)
      pure none
    | some filename =>
      let scale ← e.readValueD "scale" 1
      let interpolateX ← e.readFlagD "interpolate_x" false
      pure (some { name, filename, scale, interpolateX })

/-! ### Scripts -/

namespace Trajectory

/-- Read a waypoint, with its time as it is written. -/
def readWaypoint (e : Element) : Reported (Number.Numeral × Pose Float) := do
  let time ← e.readValueD "time" Number.Numeral.zero
  let pose ← e.readValueD "pose" Pose.identity
  pure (time, pose)

/-- Whether a waypoint may stand before another one. -/
def inOrder (a b : Number.Numeral × Pose Float) : Bool :=
  a.1.rank .double ≤ b.1.rank .double

/-- Read the waypoints of a trajectory. -/
def readWaypoints (e : Element) : Reported (List Waypoint) := do
  let found ← (e.childrenNamed "waypoint").mapM readWaypoint
  -- sorted by the numerals, since numbers do not tell one NaN from another
  pure ((found.mergeSort inOrder).map fun (time, pose) => ⟨time.toFloat, pose⟩)

/-- Read the number that a trajectory must have. -/
def readId (e : Element) : Reported (Option UInt64) :=
  match e.attribute? "id" with
  | none => do
    Reported.fail (.missingAttribute "id" "trajectory")
    pure none
  | some text =>
    match Readable.read text with
    | .ok id => pure (some id)
    | .error message => do
      Reported.fail (.invalidAttribute "id" e.describe message)
      pure none

/-- Read a trajectory with a number. -/
def ofElement (e : Element) (id : UInt64) : Reported Trajectory := do
  let waypoints ← readWaypoints e
  pure
    { id
      animation := (e.attribute? "type").getD ""
      tension := ((e.attribute? "tension").bind Number.float?).getD 0
      waypoints }

end Trajectory

namespace Script

/-- Read trajectories behind those kept already, and drop those without a
number of their own. -/
def readTrajectories (kept : List Trajectory) : List Element → Reported (List Trajectory)
  | [] => pure kept
  | e :: es => do
    match ← Trajectory.readId e with
    | none => readTrajectories kept es
    | some id =>
      -- the content of a trajectory whose number is taken is not looked at
      if kept.any fun t => t.id == id then
        Reported.fail (.duplicateName "trajectory" (Writable.write id))
        readTrajectories kept es
      else
        let t ← Trajectory.ofElement e id
        readTrajectories (kept ++ [t]) es

/-- Read a script. -/
def ofElement (e : Element) : Reported Script := do
  let loops ← e.readFlagD "loop" true
  let delayStart ← e.readValueD "delay_start" 0
  let autoStart ← e.readFlagD "auto_start" true
  let trajectories ← readTrajectories [] (e.childrenNamed "trajectory")
  pure { loops, delayStart, autoStart, trajectories }

end Script

/-! ### Actors -/

/-- Read a skin, which must have a file. -/
def Skin.ofElement (e : Element) : Reported (Option Skin) := do
  match e.childText? "filename" with
  | none =>
    Reported.fail (.missingElement "filename" e.describe)
    pure none
  | some filename =>
    let scale ← e.readValueD "scale" 1
    pure (some { filename, scale })

namespace Actor

/-- The tags known in an actor. -/
def knownTags : List String :=
  ["pose", "skin", "animation", "script", "link", "joint", "plugin"]

/-- Read an actor, which must have a name. -/
def ofElement (e : Element) : Reported (Option Actor) := do
  match ← e.readName with
  | none => pure none
  | some name =>
    let placement ← e.readPlacement
    e.checkChildren knownTags
    let skin ← e.readChildD "skin" none Skin.ofElement
    let animations ← e.readAll Animation.ofElement
    let script ← e.readChildD "script" {} Script.ofElement
    let links ← e.readAll Link.ofElement
    let joints ← e.readAll Joint.ofElement
    pure (some { name, placement, skin, animations, script, links, joints })

end Actor

end Scene

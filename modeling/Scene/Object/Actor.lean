/-
Actors: figures that move as a script says.

An actor has a skin and animations, both from files, and a script of
trajectories.  A trajectory plays one animation along its waypoints; the number
of a trajectory tells it apart from the others of its script.  An actor may
hold links and joints, but has no frames of its own.
-/
import Scene.Object.Joint
import Scene.Object.Link

namespace Scene

/-- The surface of an actor. -/
structure Skin where
  filename : String
  scale : Float := 1
deriving BEq, Repr

/-- A motion of an actor. -/
structure Animation where
  name : String
  filename : String
  scale : Float := 1
  interpolateX : Bool := false
deriving BEq, Repr

instance : Named Animation := ⟨"animation", Animation.name⟩

/-- Where an actor is at a time. -/
structure Waypoint where
  time : Float
  pose : Pose Float
deriving BEq, Repr

/-- A path along waypoints. -/
structure Trajectory where
  id : UInt64
  /-- The name of the animation that is played. -/
  animation : String
  tension : Float
  waypoints : List Waypoint
deriving BEq, Repr

/-- What an actor does. -/
structure Script where
  loops : Bool := true
  delayStart : Float := 0
  autoStart : Bool := true
  trajectories : List Trajectory := []
deriving BEq, Repr

/-- A figure that moves. -/
structure Actor where
  name : String := ""
  placement : Placement := {}
  skin : Option Skin := none
  animations : List Animation := []
  script : Script := {}
  links : List Link := []
  joints : List Joint := []
deriving BEq, Repr

instance : Named Actor := ⟨"actor", Actor.name⟩

namespace Actor

/-- Add an animation, unless its name is taken. -/
def addAnimation (a : Actor) (x : Animation) : Actor × Errors :=
  let (animations, es) := addUnique a.animations x
  ({ a with animations }, es)

/-- Add a link, unless its name is taken. -/
def addLink (a : Actor) (l : Link) : Actor × Errors :=
  let (links, es) := addUnique a.links l
  ({ a with links }, es)

/-- Add a joint, unless its name is taken. -/
def addJoint (a : Actor) (j : Joint) : Actor × Errors :=
  let (joints, es) := addUnique a.joints j
  ({ a with joints }, es)

/-- Remove all links. -/
def clearLinks (a : Actor) : Actor := { a with links := [] }

/-- Remove all joints. -/
def clearJoints (a : Actor) : Actor := { a with joints := [] }

end Actor

end Scene

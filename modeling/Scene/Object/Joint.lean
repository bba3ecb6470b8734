/-
Joints: how the links of a model move against each other.

A joint has a frame of its own.  Its pose is expressed in the child link if no
frame is named, and it is attached to the child, so a joint always moves with
the body it carries.

The direction of an axis may be expressed in any frame of the scope.  It is
brought into another frame by the rotation between the two, so its length stays
as it is.
-/
import Scene.Object.Named

namespace Scene

/-! ### Types of joints -/

/-- How a joint moves. -/
inductive JointType where
  | fixed
  | revolute
  | prismatic
  | continuous
  | ball
  | screw
  | universal
  | revolute2
  | gearbox
deriving DecidableEq, Repr

namespace JointType

/-- The name of a type of joint. -/
def text : JointType → String
  | .fixed => "fixed"
  | .revolute => "revolute"
  | .prismatic => "prismatic"
  | .continuous => "continuous"
  | .ball => "ball"
  | .screw => "screw"
  | .universal => "universal"
  | .revolute2 => "revolute2"
  | .gearbox => "gearbox"

/-- The type of a name. -/
def ofString : String → Except String JointType
  | "fixed" => .ok .fixed
  | "revolute" => .ok .revolute
  | "prismatic" => .ok .prismatic
  | "continuous" => .ok .continuous
  | "ball" => .ok .ball
  | "screw" => .ok .screw
  | "universal" => .ok .universal
  | "revolute2" => .ok .revolute2
  | "gearbox" => .ok .gearbox
  | other => .error s!"unknown joint type '{other}'"

/-- Whether a joint of the type moves along or about an axis. -/
def hasAxis : JointType → Bool
  | .fixed | .ball => false
  | _ => true

end JointType

/-! ### Axes -/

/-- The axis of a joint, with what resists a motion along it and what bounds
it. -/
structure Axis (R : Type) where
  xyz : Vec3 R
  /-- The frame that the direction is expressed in; empty for the joint's. -/
  expressedIn : String
  damping : R
  friction : R
  springReference : R
  springStiffness : R
  lower : R
  upper : R
  effort : R
  velocity : R
  stiffness : R
  dissipation : R
  /-- The name of the joint that holds it. -/
  owner : String
deriving BEq, Repr

/-- A number above all finite ones. -/
def unbounded : Float := Float.ofBits 0x7FF0000000000000

namespace Axis

/-- The axis where nothing is said about it. -/
def standard : Axis Float where
  xyz := ⟨0, 0, 1⟩
  expressedIn := ""
  damping := 0
  friction := 0
  springReference := 0
  springStiffness := 0
  lower := -1e16
  upper := 1e16
  effort := unbounded
  velocity := unbounded
  stiffness := 1e8
  dissipation := 1
  owner := ""

/-- Set the direction, unless it has no length. -/
def setXyz (a : Axis Float) (xyz : Vec3 Float) : Axis Float × Errors :=
  if xyz.norm ≤ epsilon then (a, [.axisWithoutDirection]) else ({ a with xyz }, [])

variable {R : Type} [Mul R] [Add R] [Sub R] [Neg R] [OfNat R 0] [OfNat R 1]

/-- The direction of an axis in a frame; an empty name means the joint's. -/
def resolveXyz (a : Axis R) (g : FrameGraph R) (resolveTo : String) :
    Except Errors (Vec3 R) :=
  let orJoint (frame : String) := if frame = "" then a.owner else frame
  if orJoint a.expressedIn = "" ∨ orJoint resolveTo = "" then
    .error [.frameNotFound "" "joint axis with no joint"]
  else
    (g.resolvePose (orJoint a.expressedIn) (orJoint resolveTo)).map
      fun pose => pose.rotation.apply a.xyz

end Axis

/-! ### Joints -/

/-- A joint between two links. -/
structure Joint where
  name : String
  type : JointType
  parent : String
  child : String
  placement : Placement := {}
  axis : Option (Axis Float) := none
deriving BEq, Repr

instance : Named Joint := ⟨"joint", Joint.name⟩

namespace Joint

/-- Write the name of the joint into its axis. -/
def adopt (j : Joint) : Joint :=
  { j with axis := j.axis.map fun a => { a with owner := j.name } }

/-- Give the joint another name. -/
def rename (j : Joint) (name : String) : Joint := { j with name }.adopt

/-- Give the joint an axis, or take it away. -/
def setAxis (j : Joint) (axis : Option (Axis Float)) : Joint := { j with axis }.adopt

/-- The frame that the direction of the axis is expressed in, if one is
named. -/
def expressedIn (j : Joint) : String := (j.axis.map Axis.expressedIn).getD ""

/-- The pose of a joint, by default in its child. -/
def semanticPose (j : Joint) : SemanticPose Float := j.placement.ofVertex j.name j.child

/-- The frame of a joint. -/
def vertex (j : Joint) : Vertex Float := j.placement.vertex j.name .joint j.child j.child

end Joint

end Scene

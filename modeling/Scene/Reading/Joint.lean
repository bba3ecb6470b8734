/-
Reading joints.

A joint cannot be read without a type, a parent and a child.  Its axis is read
only if all three are there, so a joint that is dropped says nothing about its
axis.
-/
import Scene.Object.Joint
import Scene.Reading.Field

namespace Scene

namespace Axis

/-- Read the direction of an axis, and the frame that it is expressed in. -/
def readXyz (e : Element) (a : Axis Float) : Reported (Axis Float) := do
  let a ← match ← e.readValue "xyz" with
    | none => pure a
    | some xyz => do
      let (a, es) := a.setXyz xyz
      Reported.failAll (es.map fun err => .invalidElement "xyz" e.describe err.message)
      pure a
  match (e.child? "xyz").bind fun x => x.attribute? "expressed_in" with
  | none => pure a
  | some expressedIn => pure { a with expressedIn }

/-- Read what resists a motion along an axis. -/
def readDynamics (e : Element) (a : Axis Float) : Reported (Axis Float) := do
  match e.child? "dynamics" with
  | none => pure a
  | some d =>
    let damping ← d.readValueD "damping" a.damping
    let friction ← d.readValueD "friction" a.friction
    let springReference ← d.readValueD "spring_reference" a.springReference
    let springStiffness ← d.readValueD "spring_stiffness" a.springStiffness
    pure { a with damping, friction, springReference, springStiffness }

/-- A limit as it is meant: a negative one is none. -/
def limitOf (x : Float) : Float := if x < 0 then unbounded else x

/-- Read what bounds a motion along an axis. -/
def readLimit (e : Element) (a : Axis Float) : Reported (Axis Float) := do
  match e.child? "limit" with
  | none => pure a
  | some l =>
    let lower ← l.readValueD "lower" a.lower
    let upper ← l.readValueD "upper" a.upper
    let effort ← l.readValueD "effort" a.effort
    let velocity ← l.readValueD "velocity" a.velocity
    let stiffness ← l.readValueD "stiffness" a.stiffness
    let dissipation ← l.readValueD "dissipation" a.dissipation
    pure { a with
      lower, upper, effort := limitOf effort, velocity := limitOf velocity, stiffness, dissipation }

/-- Read the axis of a joint. -/
def ofElement (e : Element) : Reported (Axis Float) := do
  readLimit e (← readDynamics e (← readXyz e standard))

end Axis

namespace Joint

/-- The tags known in a joint. -/
def knownTags : List String :=
  ["parent", "child", "pose", "axis", "axis2", "gearbox_ratio", "gearbox_reference_body",
    "thread_pitch", "screw_thread_pitch", "physics", "sensor"]

/-- Read the type that a joint must have. -/
def readType (e : Element) : Reported (Option JointType) :=
  match e.attribute? "type" with
  | none => do
    Reported.fail (.missingAttribute "type" e.describe)
    pure none
  | some text =>
    match JointType.ofString text with
    | .ok type => pure (some type)
    | .error message => do
      Reported.fail (.invalidAttribute "type" e.describe message)
      pure none

/-- Read a joint with a name and a type. -/
def ofNamed (e : Element) (name : String) (type : JointType) : Reported (Option Joint) := do
  let parent ← e.requireText "parent"
  let child ← e.requireText "child"
  let placement ← e.readPlacement
  e.checkChildren knownTags
  if e.hasChild "axis" ∧ !type.hasAxis then
    Reported.warn s!"{e.describe} has an <axis>, which a {type.text} joint ignores"
  match parent, child with
  | some parent, some child =>
    let axis ← e.readChildD "axis" none fun a => some <$> Axis.ofElement a
    let joint : Joint := { name, type, parent, child, placement, axis }
    pure (some joint.adopt)
  | _, _ => pure none

/-- Read a joint. -/
def ofElement (e : Element) : Reported (Option Joint) := do
  match ← e.readFrameName with
  | none => pure none
  | some name =>
    match ← readType e with
    | none => pure none
    | some type => ofNamed e name type

end Joint

end Scene

/-
Shapes of bodies.

A shape is a plain value: its dimensions can be set to anything, and its volume
is computed from what they are, so a negative dimension gives a volume that
means nothing rather than an error.  The one exception is the normal of a
plane, which is brought to length one, or to the z axis if it has no direction.
-/
import Scene.Space.Vector

namespace Scene

/-! ### Single shapes -/

/-- A box, centred at the origin. -/
structure Box where
  size : Vec3 Float := ⟨1, 1, 1⟩
deriving BEq, Repr

/-- A cylinder along z. -/
structure Cylinder where
  radius : Float := 0.5
  length : Float := 1
deriving BEq, Repr

/-- A ball. -/
structure Sphere where
  radius : Float := 1
deriving BEq, Repr

/-- A cylinder along z with a half ball at either end. -/
structure Capsule where
  radius : Float := 0.5
  length : Float := 1
deriving BEq, Repr

/-- An ellipsoid with its axes along x, y and z. -/
structure Ellipsoid where
  radii : Vec3 Float := ⟨1, 1, 1⟩
deriving BEq, Repr

/-- A rectangle of a plane through the origin. -/
structure Plane where
  normal : Vec3 Float := ⟨0, 0, 1⟩
  size : Vec2 Float := ⟨1, 1⟩
deriving BEq, Repr

/-- A shape from a file. -/
structure Mesh where
  uri : String := ""
  scale : Vec3 Float := ⟨1, 1, 1⟩
  submesh : Option String := none
deriving BEq, Repr

/-- The volume of a box. -/
def Box.volume (b : Box) : Float := b.size.x * b.size.y * b.size.z

/-- The volume of a cylinder. -/
def Cylinder.volume (c : Cylinder) : Float := pi * (c.radius * c.radius) * c.length

/-- The volume of a ball of a radius. -/
def ballVolume (radius : Float) : Float := 4 / 3 * pi * (radius * radius * radius)

/-- The volume of a ball. -/
def Sphere.volume (s : Sphere) : Float := ballVolume s.radius

/-- The volume of a capsule. -/
def Capsule.volume (c : Capsule) : Float :=
  pi * (c.radius * c.radius) * c.length + ballVolume c.radius

/-- The volume of an ellipsoid. -/
def Ellipsoid.volume (e : Ellipsoid) : Float :=
  4 / 3 * pi * e.radii.x * e.radii.y * e.radii.z

namespace Plane

/-- A length up to which a normal has no direction. -/
def normalTolerance : Float := 1e-12

/-- Set the normal, brought to length one. -/
def setNormal (p : Plane) (normal : Vec3 Float) : Plane :=
  { p with normal := (normal.normalized? normalTolerance).getD ⟨0, 0, 1⟩ }

/-- The plane with a normal and a size. -/
def ofNormal (normal : Vec3 Float) (size : Vec2 Float) : Plane :=
  ({ size } : Plane).setNormal normal

end Plane

/-! ### Any shape -/

/-- The shape of a body, if it has one. -/
inductive Geometry where
  | empty
  | box (shape : Box)
  | cylinder (shape : Cylinder)
  | sphere (shape : Sphere)
  | capsule (shape : Capsule)
  | ellipsoid (shape : Ellipsoid)
  | plane (shape : Plane)
  | mesh (shape : Mesh)
deriving BEq, Repr

namespace Geometry

/-- The tag of a shape. -/
def tag : Geometry → String
  | .empty => "empty"
  | .box _ => "box"
  | .cylinder _ => "cylinder"
  | .sphere _ => "sphere"
  | .capsule _ => "capsule"
  | .ellipsoid _ => "ellipsoid"
  | .plane _ => "plane"
  | .mesh _ => "mesh"

/-- The volume of a shape that has one. -/
def volume? : Geometry → Option Float
  | .box s => some s.volume
  | .cylinder s => some s.volume
  | .sphere s => some s.volume
  | .capsule s => some s.volume
  | .ellipsoid s => some s.volume
  | .empty | .plane _ | .mesh _ => none

/-- The box that a geometry is. -/
def box? : Geometry → Option Box
  | .box s => some s
  | _ => none

/-- The cylinder that a geometry is. -/
def cylinder? : Geometry → Option Cylinder
  | .cylinder s => some s
  | _ => none

/-- The sphere that a geometry is. -/
def sphere? : Geometry → Option Sphere
  | .sphere s => some s
  | _ => none

/-- The mesh that a geometry is. -/
def mesh? : Geometry → Option Mesh
  | .mesh s => some s
  | _ => none

end Geometry

end Scene

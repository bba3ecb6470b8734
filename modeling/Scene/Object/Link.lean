/-
Links: rigid bodies with their mass, their shapes and their lights.

What a link holds knows the name of the link, because a pose that names no frame
is expressed in the link's.  So every operation that puts something into a link,
and the one that renames it, writes the name of the link into what it holds.
-/
import Scene.Markup.Element
import Scene.Object.Named
import Scene.Shape
import Scene.Value.Color

namespace Scene

/-! ### Collisions and visuals -/

/-- A shape that can be bumped into. -/
structure Collision where
  name : String := ""
  placement : Placement := {}
  geometry : Geometry := .empty
  /-- The name of the link that holds it. -/
  owner : String := ""
deriving BEq, Repr

instance : Named Collision := ⟨"collision", Collision.name⟩

/-- The pose of a collision, by default in its link. -/
def Collision.semanticPose (c : Collision) : SemanticPose Float := c.placement.ofChild c.owner

/-- The colors of a surface. -/
structure Material where
  ambient : Color := .black
  diffuse : Color := .black
  specular : Color := .black
  emissive : Color := .black
deriving BEq, Repr

/-- A shape that can be seen. -/
structure Visual where
  name : String := ""
  placement : Placement := {}
  geometry : Geometry := .empty
  castShadows : Bool := true
  transparency : Float := 0
  material : Option Material := none
  /-- The name of the link that holds it. -/
  owner : String := ""
deriving BEq, Repr

instance : Named Visual := ⟨"visual", Visual.name⟩

/-- The pose of a visual, by default in its link. -/
def Visual.semanticPose (v : Visual) : SemanticPose Float := v.placement.ofChild v.owner

/-! ### Lights -/

/-- How a light shines. -/
inductive LightType where
  | point
  | directional
  | spot
deriving DecidableEq, Repr

namespace LightType

/-- The name of a type of light. -/
def text : LightType → String
  | .point => "point"
  | .directional => "directional"
  | .spot => "spot"

/-- The type of a name. -/
def ofString : String → Except String LightType
  | "point" => .ok .point
  | "directional" => .ok .directional
  | "spot" => .ok .spot
  | other => .error s!"unknown light type '{other}'"

end LightType

/-- How a light grows weaker with distance. -/
structure Attenuation where
  range : Float := 10
  constant : Float := 1
  linear : Float := 1
  quadratic : Float := 0
deriving BEq, Repr

/-- The cone of a spot light. -/
structure SpotCone where
  innerAngle : Float := 0
  outerAngle : Float := 0
  falloff : Float := 0
deriving BEq, Repr

/-- A source of light. -/
structure Light where
  name : String := ""
  type : LightType := .point
  placement : Placement := {}
  castShadows : Bool := false
  intensity : Float := 1
  diffuse : Color := .white
  specular : Color := ⟨0.1, 0.1, 0.1, 1⟩
  direction : Vec3 Float := ⟨0, 0, -1⟩
  attenuation : Attenuation := {}
  /-- The cone, which only a spot light makes use of. -/
  spot : SpotCone := {}
  /-- The name of the link or world that holds it. -/
  owner : String := ""
deriving BEq, Repr

instance : Named Light := ⟨"light", Light.name⟩

/-- The pose of a light, by default in its link or world. -/
def Light.semanticPose (l : Light) : SemanticPose Float := l.placement.ofChild l.owner

/-! ### Mass -/

/-- The moments of inertia, a symmetric matrix. -/
structure Inertia where
  ixx : Float := 1
  ixy : Float := 0
  ixz : Float := 0
  iyy : Float := 1
  iyz : Float := 0
  izz : Float := 1
deriving BEq, Repr

/-- The entries of the matrix, row by row. -/
def Inertia.values (i : Inertia) : List Float := [i.ixx, i.ixy, i.ixz, i.iyy, i.iyz, i.izz]

/-- Mass, where its centre is, and the moments of inertia about it. -/
structure Inertial where
  mass : Float := 1
  pose : Pose Float := .identity
  inertia : Inertia := {}
deriving BEq, Repr

/-! ### Links -/

/-- A rigid body. -/
structure Link where
  name : String := ""
  placement : Placement := {}
  inertial : Option Inertial := none
  collisions : List Collision := []
  visuals : List Visual := []
  lights : List Light := []
  /-- Children of its element that mean nothing here, kept to be written. -/
  unknown : List Element := []
deriving BEq, Repr

instance : Named Link := ⟨"link", Link.name⟩

namespace Link

/-- Write the name of the link into everything it holds. -/
def adopt (l : Link) : Link :=
  { l with
    collisions := l.collisions.map fun c => { c with owner := l.name }
    visuals := l.visuals.map fun v => { v with owner := l.name }
    lights := l.lights.map fun x => { x with owner := l.name } }

/-- Give the link another name. -/
def rename (l : Link) (name : String) : Link := { l with name }.adopt

/-- Add a collision, unless its name is taken. -/
def addCollision (l : Link) (c : Collision) : Link × Errors :=
  let (collisions, es) := addUnique l.collisions { c with owner := l.name }
  ({ l with collisions }, es)

/-- Add a visual, unless its name is taken. -/
def addVisual (l : Link) (v : Visual) : Link × Errors :=
  let (visuals, es) := addUnique l.visuals { v with owner := l.name }
  ({ l with visuals }, es)

/-- Add a light, unless its name is taken. -/
def addLight (l : Link) (x : Light) : Link × Errors :=
  let (lights, es) := addUnique l.lights { x with owner := l.name }
  ({ l with lights }, es)

/-- Remove all collisions. -/
def clearCollisions (l : Link) : Link := { l with collisions := [] }

/-- Remove all visuals. -/
def clearVisuals (l : Link) : Link := { l with visuals := [] }

/-- Remove all lights. -/
def clearLights (l : Link) : Link := { l with lights := [] }

/-- The pose of a link, by default in its model. -/
def semanticPose (l : Link) : SemanticPose Float := l.placement.ofVertex l.name ""

/-- The frame of a link. -/
def vertex (l : Link) : Vertex Float := l.placement.vertex l.name .link "" ""

end Link

end Scene

/-
Reading links and what they hold.

A shape with a dimension that is not positive is taken as it is, with a warning.
A mass or a moment of inertia that no body can have is an error, but is kept,
too.
-/
import Scene.Object.Link
import Scene.Reading.Field

namespace Scene

/-! ### Shapes -/

namespace Geometry

/-- The tags of shapes. -/
def tags : List String :=
  ["empty", "box", "cylinder", "sphere", "capsule", "ellipsoid", "plane", "mesh"]

/-- Warn about a dimension of a shape that is not positive. -/
def checkPositive (shape : Element) (field : String) (value : Float) : Reported Unit :=
  if value ≤ 0 then
    Reported.warn (s!"{shape.tag} {field} must be positive, got " ++ Number.textOfFloat value)
  else
    pure ()

/-- Read a length that a shape must have. -/
def readLength (shape : Element) (field : String) (default : Float) : Reported Float := do
  match ← shape.requireValue field with
  | none => pure default
  | some value =>
    checkPositive shape field value
    pure value

/-- Read three lengths that a shape must have. -/
def readLengths (shape : Element) (field : String) (default : Vec3 Float) :
    Reported (Vec3 Float) := do
  match ← shape.requireValue field with
  | none => pure default
  | some value =>
    checkPositive shape field (Vec3.least value)
    pure value

/-- Read a plane; `e` is the element around it. -/
def readPlane (e shape : Element) : Reported Plane := do
  let standard : Plane := {}
  let plane ← match ← shape.requireValue "normal" with
    | none => pure standard
    | some normal => do
      if Vec3.norm normal ≤ epsilon then
        Reported.warn s!"plane normal in {e.describe} has zero length"
      -- a zero normal is replaced here, after the warning
      pure (standard.setNormal normal)
  let size ← shape.readValueD "size" plane.size
  pure { plane with size }

/-- Read a mesh. -/
def readMesh (shape : Element) : Reported Mesh := do
  let standard : Mesh := {}
  let uri ← shape.requireText "uri"
  let scale ← shape.readValueD "scale" standard.scale
  let submesh := (shape.child? "submesh").bind fun s => s.childText? "name"
  pure { uri := uri.getD standard.uri, scale, submesh }

/-- Read the shape that an element is; `e` is the element around it. -/
def readShape (e shape : Element) : Reported Geometry := do
  match shape.tag with
  | "box" => return .box { size := ← readLengths shape "size" ({} : Box).size }
  | "cylinder" =>
    let radius ← readLength shape "radius" ({} : Cylinder).radius
    let length ← readLength shape "length" ({} : Cylinder).length
    return .cylinder { radius, length }
  | "sphere" => return .sphere { radius := ← readLength shape "radius" ({} : Sphere).radius }
  | "capsule" =>
    let radius ← readLength shape "radius" ({} : Capsule).radius
    let length ← readLength shape "length" ({} : Capsule).length
    return .capsule { radius, length }
  | "ellipsoid" =>
    return .ellipsoid { radii := ← readLengths shape "radii" ({} : Ellipsoid).radii }
  | "plane" => return .plane (← readPlane e shape)
  | "mesh" => return .mesh (← readMesh shape)
  | _ => return .empty

/-- Read the first shape that an element holds. -/
def ofElement (e : Element) : Reported Geometry := do
  e.checkChildren tags
  match e.children.filter fun c => tags.contains c.tag with
  | [] => pure .empty
  | [shape] => readShape e shape
  | shape :: extra :: _ =>
    Reported.warn
      s!"geometry holds more than one shape; ignoring <{extra.tag}> after <{shape.tag}>"
    readShape e shape

end Geometry

/-! ### Collisions and visuals -/

/-- The tags known in a collision. -/
def Collision.knownTags : List String :=
  ["pose", "geometry", "surface", "laser_retro", "max_contacts", "density"]

/-- Read a collision, which must have a name and a geometry. -/
def Collision.ofElement (e : Element) : Reported (Option Collision) := do
  match ← e.readFrameName with
  | none => pure none
  | some name =>
    match e.child? "geometry" with
    | none =>
      Reported.fail (.missingElement "geometry" e.describe)
      pure none
    | some g =>
      -- nothing else is looked at where there is no geometry
      let placement ← e.readPlacement
      e.checkChildren knownTags
      let geometry ← Geometry.ofElement g
      pure (some { name, placement, geometry })

/-- Read the colors of a surface. -/
def Material.ofElement (e : Element) : Reported Material := do
  let ambient ← e.readValueD "ambient" .black
  let diffuse ← e.readValueD "diffuse" .black
  let specular ← e.readValueD "specular" .black
  let emissive ← e.readValueD "emissive" .black
  pure { ambient, diffuse, specular, emissive }

/-- The tags known in a visual. -/
def Visual.knownTags : List String :=
  ["pose", "geometry", "cast_shadows", "transparency", "material", "laser_retro", "meta",
    "visibility_flags", "plugin"]

/-- Read a visual, which must have a name and a geometry. -/
def Visual.ofElement (e : Element) : Reported (Option Visual) := do
  match ← e.readFrameName with
  | none => pure none
  | some name =>
    match e.child? "geometry" with
    | none =>
      Reported.fail (.missingElement "geometry" e.describe)
      pure none
    | some g =>
      let placement ← e.readPlacement
      e.checkChildren knownTags
      let geometry ← Geometry.ofElement g
      let material ← e.readChildD "material" none fun m => some <$> Material.ofElement m
      let castShadows ← e.readFlagD "cast_shadows" true
      let transparency ← e.readShareD "transparency" 0
      pure (some { name, placement, geometry, castShadows, transparency, material })

/-! ### Lights -/

namespace Light

/-- The tags known in a light. -/
def knownTags : List String :=
  ["pose", "cast_shadows", "intensity", "diffuse", "specular", "direction", "attenuation", "spot",
    "visualize", "light_on"]

/-- Read the type of a light; a light of unknown type shines from a point. -/
def readType (e : Element) : Reported LightType :=
  match e.attribute? "type" with
  | none => do
    Reported.fail (.missingAttribute "type" e.describe)
    pure .point
  | some text =>
    match LightType.ofString text with
    | .ok type => pure type
    | .error message => do
      Reported.fail (.invalidAttribute "type" e.describe message)
      pure .point

/-- Read how a light grows weaker. -/
def readAttenuation (e : Element) : Reported Attenuation := do
  let standard : Attenuation := {}
  match e.child? "attenuation" with
  | none => pure standard
  | some a =>
    let range ← a.readValueD "range" standard.range
    let constant ← a.readValueD "constant" standard.constant
    let linear ← a.readValueD "linear" standard.linear
    let quadratic ← a.readValueD "quadratic" standard.quadratic
    -- a negative range is kept
    if range < 0 then
      Reported.warn s!"attenuation range of {e.describe} is negative"
    pure { range, constant, linear, quadratic }

/-- Read the cone of a light. -/
def readSpot (e : Element) : Reported SpotCone := do
  let standard : SpotCone := {}
  match e.child? "spot" with
  | none => pure standard
  | some s =>
    let innerAngle ← s.readValueD "inner_angle" standard.innerAngle
    let outerAngle ← s.readValueD "outer_angle" standard.outerAngle
    let falloff ← s.readValueD "falloff" standard.falloff
    pure { innerAngle, outerAngle, falloff }

/-- Read a light, which must have a name. -/
def ofElement (e : Element) : Reported (Option Light) := do
  match ← e.readName with
  | none => pure none
  | some name =>
    let standard : Light := {}
    let type ← readType e
    let placement ← e.readPlacement
    e.checkChildren knownTags
    let castShadows ← e.readFlagD "cast_shadows" standard.castShadows
    let intensity ← e.readValueD "intensity" standard.intensity
    let diffuse ← e.readValueD "diffuse" standard.diffuse
    let specular ← e.readValueD "specular" standard.specular
    let direction ← e.readValueD "direction" standard.direction
    let attenuation ← readAttenuation e
    let spot ← readSpot e
    pure (some { name, type, placement, castShadows, intensity, diffuse, specular, direction
                 attenuation, spot })

end Light

/-! ### Mass -/

namespace Inertial

/-- Report what no body can have: a mass that is not positive, and moments of
inertia that are not finite or negative.  Moments that break the triangle
inequality only look wrong. -/
def check (i : Inertial) (link : String) : Reported Unit := do
  if i.mass ≤ 0 ∨ !i.mass.isFinite then
    Reported.fail (.massInvalid link i.mass)
  let m := i.inertia
  -- signs and sums are only looked at where all moments are finite
  if m.values.any fun v => !v.isFinite then
    Reported.fail (.inertiaNotFinite link)
  else if m.ixx < 0 ∨ m.iyy < 0 ∨ m.izz < 0 then
    Reported.fail (.inertiaNegative link)
  else if m.ixx + m.iyy < m.izz ∨ m.iyy + m.izz < m.ixx ∨ m.izz + m.ixx < m.iyy then
    Reported.warn s!"link '{link}' inertia violates the triangle inequality"

/-- Read the moments of inertia. -/
def readInertia (e : Element) : Reported Inertia := do
  let standard : Inertia := {}
  match e.child? "inertia" with
  | none => pure standard
  | some m =>
    let ixx ← m.readValueD "ixx" standard.ixx
    let ixy ← m.readValueD "ixy" standard.ixy
    let ixz ← m.readValueD "ixz" standard.ixz
    let iyy ← m.readValueD "iyy" standard.iyy
    let iyz ← m.readValueD "iyz" standard.iyz
    let izz ← m.readValueD "izz" standard.izz
    pure { ixx, ixy, ixz, iyy, iyz, izz }

/-- Read the mass of a link. -/
def ofElement (link : String) (e : Element) : Reported Inertial := do
  let mass ← e.readValueD "mass" ({} : Inertial).mass
  let placement ← e.readPlacement
  let inertia ← readInertia e
  let i : Inertial := { mass, pose := placement.pose, inertia }
  i.check link
  pure i

end Inertial

/-! ### Links -/

namespace Link

/-- The tags known in a link. -/
def knownTags : List String :=
  ["pose", "inertial", "collision", "visual", "light", "gravity", "enable_wind", "self_collide",
    "kinematic", "must_be_base_link", "velocity_decay", "sensor", "projector", "audio_sink",
    "audio_source", "battery", "particle_emitter"]

/-- Read a link, which must have a name. -/
def ofElement (e : Element) : Reported (Option Link) := do
  match ← e.readFrameName with
  | none => pure none
  | some name =>
    let placement ← e.readPlacement
    let unknown ← e.unknownChildren knownTags
    let inertial ← e.readChildD "inertial" none fun i => some <$> Inertial.ofElement name i
    let collisions ← e.readAll Collision.ofElement
    let visuals ← e.readAll Visual.ofElement
    let lights ← e.readAll Light.ofElement
    let link : Link := { name, placement, inertial, collisions, visuals, lights, unknown }
    -- its parts were read without knowing the name of the link
    pure (some link.adopt)

end Link

end Scene

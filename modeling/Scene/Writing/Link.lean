/-
Writing links and what they hold.

Values that are the default are left out only where their absence is the usual
case; most fields are always written.  A cone is written for spot lights only.
-/
import Scene.Object.Link
import Scene.Writing.Field

namespace Scene

open Element

/-! ### Shapes -/

/-- The element of a shape. -/
def Geometry.shapeElement (g : Geometry) : Element :=
  let e := ofTag g.tag
  match g with
  | .empty => e
  | .box s => e.pushValue "size" s.size
  | .cylinder s => (e.pushValue "radius" s.radius).pushValue "length" s.length
  | .sphere s => e.pushValue "radius" s.radius
  | .capsule s => (e.pushValue "radius" s.radius).pushValue "length" s.length
  | .ellipsoid s => e.pushValue "radii" s.radii
  | .plane s => (e.pushValue "normal" s.normal).pushValue "size" s.size
  | .mesh s =>
    let e := e.pushValue "uri" s.uri
    let e := if s.scale == ⟨1, 1, 1⟩ then e else e.pushValue "scale" s.scale
    match s.submesh with
    | none => e
    | some name => e.push ((ofTag "submesh").pushValue "name" name)

/-- The element of a geometry. -/
def Geometry.toElement (g : Geometry) : Element := (ofTag "geometry").push g.shapeElement

/-! ### Collisions and visuals -/

/-- The element of a collision. -/
def Collision.toElement (c : Collision) : Element :=
  (((ofTag "collision").setAttribute "name" c.name).pushPlacement c.placement).push
    c.geometry.toElement

/-- The element of a material. -/
def Material.toElement (m : Material) : Element :=
  ((((ofTag "material").pushValue "ambient" m.ambient).pushValue "diffuse" m.diffuse).pushValue
    "specular" m.specular).pushValue "emissive" m.emissive

/-- The element of a visual. -/
def Visual.toElement (v : Visual) : Element :=
  let e := ((ofTag "visual").setAttribute "name" v.name).pushPlacement v.placement
  let e := if v.castShadows then e else e.pushValue "cast_shadows" false
  let e := if v.transparency == 0 then e else e.pushValue "transparency" v.transparency
  let e := e.push v.geometry.toElement
  match v.material with
  | none => e
  | some m => e.push m.toElement

/-! ### Lights -/

/-- The element of an attenuation. -/
def Attenuation.toElement (a : Attenuation) : Element :=
  ((((ofTag "attenuation").pushValue "range" a.range).pushValue "constant" a.constant).pushValue
    "linear" a.linear).pushValue "quadratic" a.quadratic

/-- The element of a cone. -/
def SpotCone.toElement (s : SpotCone) : Element :=
  (((ofTag "spot").pushValue "inner_angle" s.innerAngle).pushValue "outer_angle"
    s.outerAngle).pushValue "falloff" s.falloff

/-- The element of a light. -/
def Light.toElement (l : Light) : Element :=
  let e := ((ofTag "light").setAttribute "name" l.name).setAttribute "type" l.type.text
  let e := e.pushPlacement l.placement
  let e := e.pushValue "cast_shadows" l.castShadows
  let e := e.pushValue "intensity" l.intensity
  let e := e.pushValue "diffuse" l.diffuse
  let e := e.pushValue "specular" l.specular
  let e := e.pushValue "direction" l.direction
  let e := e.push l.attenuation.toElement
  if l.type = .spot then e.push l.spot.toElement else e

/-! ### Links -/

/-- The element of the moments of inertia. -/
def Inertia.toElement (i : Inertia) : Element :=
  (["ixx", "ixy", "ixz", "iyy", "iyz", "izz"].zip i.values).foldl
    (fun e (tag, value) => e.pushValue tag value) (ofTag "inertia")

/-- The element of a mass. -/
def Inertial.toElement (i : Inertial) : Element :=
  (((ofTag "inertial").pushValue "mass" i.mass).pushPlacement { pose := i.pose }).push
    i.inertia.toElement

/-- The element of a link. -/
def Link.toElement (l : Link) : Element :=
  let e := ((ofTag "link").setAttribute "name" l.name).pushPlacement l.placement
  let e := e.pushAll (l.inertial.toList.map Inertial.toElement)
  let e := e.pushAll (l.collisions.map Collision.toElement)
  let e := e.pushAll (l.visuals.map Visual.toElement)
  let e := e.pushAll (l.lights.map Light.toElement)
  e.pushAll l.unknown

end Scene

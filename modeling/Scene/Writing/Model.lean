/-
Writing joints, frames and models.

The children of a model are written by kind, and what is not understood comes
last.  The graph is not written: it follows from the children.
-/
import Scene.Object.Model
import Scene.Writing.Link

namespace Scene

open Element

/-! ### Joints -/

/-- A limit as it is written: one that is not finite is written as negative. -/
def Axis.writtenLimit (x : Float) : Float := if x.isFinite then x else -1

/-- The element of an axis. -/
def Axis.toElement (a : Axis Float) : Element :=
  let xyz : Element := { tag := "xyz", text := some (Writable.write a.xyz) }
  let dynamics := ofTag "dynamics"
  let dynamics := dynamics.pushValue "damping" a.damping
  let dynamics := dynamics.pushValue "friction" a.friction
  let dynamics := dynamics.pushValue "spring_reference" a.springReference
  let dynamics := dynamics.pushValue "spring_stiffness" a.springStiffness
  let limit := ofTag "limit"
  let limit := limit.pushValue "lower" a.lower
  let limit := limit.pushValue "upper" a.upper
  let limit := limit.pushValue "effort" (writtenLimit a.effort)
  let limit := limit.pushValue "velocity" (writtenLimit a.velocity)
  let limit := limit.pushValue "stiffness" a.stiffness
  let limit := limit.pushValue "dissipation" a.dissipation
  (((ofTag "axis").push (xyz.setNonempty "expressed_in" a.expressedIn)).push dynamics).push limit

/-- The element of a joint. -/
def Joint.toElement (j : Joint) : Element :=
  let e := ((ofTag "joint").setAttribute "name" j.name).setAttribute "type" j.type.text
  let e := e.pushValue "parent" j.parent
  let e := e.pushValue "child" j.child
  let e := e.pushPlacement j.placement
  e.pushAll (j.axis.toList.map Axis.toElement)

/-! ### Models -/

/-- The element of an explicit frame. -/
def Frame.toElement (f : Frame) : Element :=
  (((ofTag "frame").setAttribute "name" f.name).setNonempty "attached_to" f.attachedTo).pushPlacement
    f.placement

namespace Model

/-- The element of a model, given those of its nested models. -/
def elementWith (m : Model) (nested : List Element) : Element :=
  let e := (ofTag "model").setAttribute "name" m.name
  let e := e.setNonempty "canonical_link" m.canonicalLink
  let e := if m.isStatic then e.pushValue "static" true else e
  let e := if m.selfCollide then e.pushValue "self_collide" true else e
  let e := e.pushPlacement m.placement
  let e := e.pushAll (m.links.map Link.toElement)
  let e := e.pushAll (m.joints.map Joint.toElement)
  let e := e.pushAll (m.frames.map Frame.toElement)
  let e := e.pushAll nested
  e.pushAll m.unknown

mutual

/-- The element of a model. -/
def toElement : Model → Element
  | ⟨name, placement, isStatic, selfCollide, canonicalLink, links, joints, frames, models, graph,
      unknown⟩ =>
    elementWith
      ⟨name, placement, isStatic, selfCollide, canonicalLink, links, joints, frames, models, graph,
        unknown⟩
      (toElements models)

/-- The elements of several models. -/
def toElements : List Model → List Element
  | [] => []
  | m :: ms => toElement m :: toElements ms

end

end Model

end Scene

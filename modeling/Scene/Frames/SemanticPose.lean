/-
Poses of the objects of a scope.

An object has a pose as it is written, and a frame that this is expressed in.
Links, joints, models and explicit frames are frames of their scope, and their
pose is looked up there under their name.  Collisions, visuals and lights are
not: their pose is composed with that of the frame it is expressed in, which
is their parent if none is named.

Every object has a frame in which its pose is asked for by default.
-/
import Scene.Frames.Resolve

namespace Scene

/-- The pose of an object, with what it is expressed in. -/
structure SemanticPose (R : Type) where
  /-- The frame that the object is, if it is one. -/
  vertex : Option String
  /-- The pose as it is written. -/
  raw : Pose R
  /-- The frame that it is expressed in; empty for the default one. -/
  relativeTo : String
  /-- The frame that it is resolved in by default; empty for that of the scope. -/
  resolveTo : String

namespace SemanticPose

variable {R : Type} [Mul R] [Add R] [Sub R] [Neg R] [OfNat R 0] [OfNat R 1]

/-- The pose of an object that is a frame of its scope. -/
def ofVertex (name : String) (raw : Pose R) (relativeTo resolveTo : String) : SemanticPose R :=
  ⟨some name, raw, relativeTo, resolveTo⟩

/-- The pose of an object that belongs to a frame of its scope. -/
def ofChild (raw : Pose R) (relativeTo parent : String) : SemanticPose R :=
  ⟨none, raw, relativeTo, parent⟩

/-- The frame that the pose of an object which is no frame is expressed in. -/
def base (p : SemanticPose R) (g : FrameGraph R) : String :=
  g.orScope (if p.relativeTo = "" then p.resolveTo else p.relativeTo)

/-- The pose of the object in the frame of the scope. -/
def poseInScope (p : SemanticPose R) (g : FrameGraph R) : Except Errors (Pose R) :=
  match p.vertex with
  | some name => g.poseInScope name
  | none => (g.poseInScope (p.base g)).map fun outer => outer.compose p.raw

/-- The pose of the object in a frame; an empty name means that of the scope. -/
def resolveRelativeTo (p : SemanticPose R) (g : FrameGraph R) (frame : String) :
    Except Errors (Pose R) :=
  combine (fun pose target => target.inverse.compose pose)
    (p.poseInScope g) (g.poseInScope (g.orScope frame))

/-- The pose of the object in its default frame. -/
def resolve (p : SemanticPose R) (g : FrameGraph R) : Except Errors (Pose R) :=
  p.resolveRelativeTo g p.resolveTo

end SemanticPose

end Scene

/-
Resolving poses and bodies in a scope.

The pose of a frame in its scope is found by following `relativeTo` to the frame
of the scope and composing the poses on the way, outermost first.  The pose of
one frame in another is the second one's inverse composed with the first one.
The body that a frame moves with is found by following `attachedTo` to a link,
a model, or a scope that is attached to nothing.

Either walk fails with one error.  A pose in another frame needs two walks, and
both are reported if both fail.
-/
import Scene.Frames.Graph
import Scene.Frames.Walk

namespace Scene

/-- Combine two results, or report what is wrong with both. -/
def combine {α β γ : Type} (f : α → β → γ) : Except Errors α → Except Errors β → Except Errors γ
  | .ok a, .ok b => .ok (f a b)
  | .ok _, .error es => .error es
  | .error es, .ok _ => .error es
  | .error es, .error fs => .error (es ++ fs)

namespace FrameGraph

variable {R : Type} (g : FrameGraph R)

/-- Where the reference of the frame at a position leads. -/
def stepBy (reference : Vertex R → Option String) (i : Fin g.vertices.size) :
    Step g.vertices.size :=
  match reference (g.vertexAt i) with
  | none => .stop
  | some name =>
    match g.position? name with
    | none => .missing name
    | some j => .to j

/-- Where `relativeTo` leads. -/
def relativeStep : Fin g.vertices.size → Step g.vertices.size := g.stepBy g.relativeReference

/-- Where `attachedTo` leads. -/
def attachedStep : Fin g.vertices.size → Step g.vertices.size := g.stepBy g.attachedReference

/-- The error of a `relativeTo` that names no frame. -/
def relativeMissing (referrer : Fin g.vertices.size) (name : String) : Error :=
  .frameNotFound name s!"relative_to of [{g.nameAt referrer}]"

/-- The error of an `attachedTo` that names no frame. -/
def attachedMissing (name : String) : Error := .attachedToNotFound name g.scopeName

variable [Mul R] [Add R] [Sub R] [OfNat R 0] [OfNat R 1]

/-- The composition of the poses of frames, the last one outermost. -/
def composeInward (is : List (Fin g.vertices.size)) : Pose R :=
  is.reverse.foldl (fun outer i => outer.compose (g.vertexAt i).pose) .identity

/-- The pose of a frame in the frame of the scope. -/
def poseInScope (name : String) : Except Errors (Pose R) :=
  match g.position? name with
  | none => .error [.frameNotFound name "pose query"]
  | some start =>
    let w := walk g.relativeStep [] start
    match w.ending with
    -- the last position is that of the scope frame, whose own pose does not count
    | .stopped | .known => .ok (g.composeInward w.trail.dropLast)
    | .missing referrer name => .error [g.relativeMissing referrer name]
    | .back i => .error [.poseCycle (g.namesAt (w.trail ++ [i]))]

/-- A name, or that of the scope frame in place of an empty one. -/
def orScope (name : String) : String := if name = "" then g.scopeName else name

/-- The pose of a frame in another one; an empty name means the frame of the
scope. -/
def resolvePose [Neg R] (name relativeTo : String) : Except Errors (Pose R) :=
  combine (fun pose target => target.inverse.compose pose)
    (g.poseInScope name) (g.poseInScope (g.orScope relativeTo))

omit [Mul R] [Add R] [Sub R] [OfNat R 0] [OfNat R 1]

/-- The body that a frame moves with. -/
def attachedBody (name : String) : Except Errors String :=
  match g.position? name with
  | none => .error [g.attachedMissing name]
  | some start =>
    let w := walk g.attachedStep [] start
    match w.ending with
    | .stopped | .known => .ok ((w.trail.getLast?.map g.nameAt).getD name)
    | .missing _ name => .error [g.attachedMissing name]
    | .back i => .error [.attachedToCycle (g.namesAt (w.trail ++ [i]))]

/-! ### All references of a scope -/

/-- Whether `attachedTo` of a frame is checked for its own sake. -/
def isAttachable (i : Fin g.vertices.size) : Bool :=
  (g.vertexAt i).kind = .frame ∨ (g.vertexAt i).kind = .scope

/-- The error of something wrong with `relativeTo`. -/
def relativeError : Finding g.vertices.size → Error
  | .missing referrer name => g.relativeMissing referrer name
  | .loop members => .poseCycle (g.namesAt members)

/-- The error of something wrong with `attachedTo`. -/
def attachedError : Finding g.vertices.size → Error
  | .missing _ name => g.attachedMissing name
  | .loop members => .attachedToCycle (g.namesAt members)

/-- What is wrong with `relativeTo` of any frame. -/
def relativeErrors : Errors :=
  (survey g.relativeStep [] (List.finRange _)).map g.relativeError

/-- What is wrong with `attachedTo` of explicit frames and of the scope. -/
def attachedErrors : Errors :=
  (survey g.attachedStep [] ((List.finRange _).filter g.isAttachable)).map g.attachedError

/-- What is wrong with the references of a scope, each thing once. -/
def validate : Errors := g.relativeErrors ++ g.attachedErrors

end FrameGraph

end Scene

/-
Frames of one scope.

A world and a model are scopes: each has frames of its own, with names that
differ.  The first frame is that of the scope itself; the others stand for its
links, joints, nested models and explicit frames.  A frame refers to two other
ones by name: the one that its pose is expressed in (`relativeTo`), and the one
that it moves with (`attachedTo`).

The vertices lie in an arena, in the order in which they were added, with an
index from names to positions.  A name that is taken is refused, so that the
index is a function; nothing else is checked here, and references may lead
nowhere or round in a circle.
-/
import Scene.Diagnostic.Error
import Scene.Space.Pose
import Std.Data.TreeMap

namespace Scene

/-- The name of the frame of a world. -/
def worldFrame : String := "world"

/-- The name of the frame of a model. -/
def modelFrame : String := "__model__"

/-- What a vertex stands for. -/
inductive VertexKind where
  | scope
  | link
  | joint
  | frame
  | model
deriving DecidableEq, Repr

/-- A named frame with its references; an empty reference is none. -/
structure Vertex (R : Type) where
  name : String
  kind : VertexKind
  pose : Pose R
  relativeTo : String := ""
  attachedTo : String := ""

instance {R : Type} [BEq R] [Neg R] : BEq (Vertex R) :=
  ⟨fun v w => v.name == w.name && v.kind == w.kind && v.pose == w.pose
    && v.relativeTo == w.relativeTo && v.attachedTo == w.attachedTo⟩

/-- The frames of a scope. -/
structure FrameGraph (R : Type) where
  /-- The frames, that of the scope first. -/
  vertices : Array (Vertex R)
  /-- The position of the frame of a name. -/
  index : Std.TreeMap String Nat

namespace FrameGraph

variable {R : Type}

/-- Graphs are equal if their frames are, in the same order. -/
instance [BEq R] [Neg R] : BEq (FrameGraph R) := ⟨fun g h => g.vertices == h.vertices⟩

/-! ### Making a graph -/

/-- The graph of a scope frame alone. -/
def ofScope (scope : Vertex R) : FrameGraph R :=
  { vertices := #[scope], index := (∅ : Std.TreeMap String Nat).insert scope.name 0 }

/-- The graph of a scope that holds nothing. -/
def ofName [OfNat R 0] [OfNat R 1] (name : String) : FrameGraph R :=
  ofScope { name, kind := .scope, pose := .identity }

/-- The graph of an empty world. -/
def world [OfNat R 0] [OfNat R 1] : FrameGraph R := ofName worldFrame

/-- A graph of which nothing is said is that of an empty world. -/
instance [OfNat R 0] [OfNat R 1] : Inhabited (FrameGraph R) := ⟨world⟩

/-- The graph of an empty model, its frame attached to a body. -/
def model [OfNat R 0] [OfNat R 1] (canonical : String) : FrameGraph R :=
  ofScope { name := modelFrame, kind := .scope, pose := .identity, attachedTo := canonical }

variable (g : FrameGraph R)

/-- The name of the scope frame. -/
def scopeName : String := (g.vertices[0]?.map Vertex.name).getD ""

/-- Number of frames, that of the scope included. -/
def size : Nat := g.vertices.size

/-- Whether there is a frame of a name. -/
def contains (name : String) : Bool := g.index.contains name

/-- Add a frame, unless its name is taken. -/
def add (v : Vertex R) : Except Error (FrameGraph R) :=
  if g.contains v.name then
    .error (.frameNameTaken v.name g.scopeName)
  else
    .ok { vertices := g.vertices.push v, index := g.index.insert v.name g.vertices.size }

/-! ### Looking up -/

/-- The position of the frame of a name. -/
def position? (name : String) : Option (Fin g.vertices.size) :=
  g.index[name]?.bind fun i => if h : i < g.vertices.size then some ⟨i, h⟩ else none

/-- The frame at a position. -/
def vertexAt (i : Fin g.vertices.size) : Vertex R := g.vertices[i]

/-- The frame of a name. -/
def vertex? (name : String) : Option (Vertex R) := (g.position? name).map g.vertexAt

/-- The name of the frame at a position. -/
def nameAt (i : Fin g.vertices.size) : String := (g.vertexAt i).name

/-- The names of the frames at positions. -/
def namesAt (is : List (Fin g.vertices.size)) : List String := is.map g.nameAt

/-! ### References -/

/-- The frame that the pose of a frame is expressed in; none for the frame of
the scope. -/
def relativeReference (v : Vertex R) : Option String :=
  if v.kind = .scope then none
  else if v.relativeTo = "" then some g.scopeName
  else some v.relativeTo

/-- The frame that a frame moves with; none for a body, and for a scope that is
attached to nothing. -/
def attachedReference (v : Vertex R) : Option String :=
  match v.kind with
  | .link | .model => none
  | .scope => if v.attachedTo = "" then none else some v.attachedTo
  | .joint => some v.attachedTo
  | .frame => if v.attachedTo = "" then some g.scopeName else some v.attachedTo

end FrameGraph

end Scene

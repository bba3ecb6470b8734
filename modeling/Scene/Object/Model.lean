/-
Models: links with joints between them, explicit frames, and further models.

The names of all four kinds are frames of one scope, so no two of them may be
equal, and none may be that of the scope itself.  A model keeps the graph of
that scope beside its children.  Adding a child and clearing a collection
rebuild the graph; an edit inside a child does not, and needs `rebuild`.

What is wrong with the references of a model is reported whenever its graph is
built.  Only a joint that does not carry a body of the model is kept out of the
graph.
-/
import Scene.Object.Joint
import Scene.Object.Link

namespace Scene

/-! ### Explicit frames -/

/-- A frame that stands for itself. -/
structure Frame where
  name : String := ""
  /-- The frame that it moves with; empty for that of the scope. -/
  attachedTo : String := ""
  placement : Placement := {}
deriving BEq, Repr

instance : Named Frame := ⟨"frame", Frame.name⟩

namespace Frame

/-- The pose of a frame, by default in the one it is attached to. -/
def semanticPose (f : Frame) : SemanticPose Float := f.placement.ofVertex f.name f.attachedTo

/-- The frame, expressed in the one it is attached to if no other is named. -/
def vertex (f : Frame) : Vertex Float :=
  f.placement.vertex f.name .frame f.attachedTo f.attachedTo

/-- The body that the frame moves with. -/
def attachedBody (f : Frame) (g : FrameGraph Float) : Except Errors String :=
  g.attachedBody f.name

end Frame

/-! ### Graphs under construction -/

/-- A graph that frames are added to, and what was wrong with them. -/
structure Draft where
  graph : FrameGraph Float
  errors : Errors := []

namespace Draft

/-- Report errors. -/
def report (d : Draft) (es : Errors) : Draft := { d with errors := d.errors ++ es }

/-- Add a frame, or report that its name is taken. -/
def add (d : Draft) (v : Vertex Float) : Draft :=
  match d.graph.add v with
  | .ok graph => { d with graph }
  | .error e => d.report [e]

/-- Add several frames. -/
def addAll (d : Draft) (vs : List (Vertex Float)) : Draft := vs.foldl add d

/-- Report what is wrong with the references of the graph. -/
def finish (d : Draft) : Draft := d.report d.graph.validate

end Draft

/-! ### Models -/

/-- A model. -/
structure Model where
  name : String := ""
  placement : Placement := {}
  isStatic : Bool := false
  selfCollide : Bool := false
  /-- The link that stands for the model; empty for the first one. -/
  canonicalLink : String := ""
  links : List Link := []
  joints : List Joint := []
  frames : List Frame := []
  models : List Model := []
  /-- The frames of the model. -/
  graph : FrameGraph Float := .model ""
  /-- Children of its element that mean nothing here, kept to be written. -/
  unknown : List Element := []
deriving Inhabited

instance : Named Model := ⟨"model", Model.name⟩

namespace Model

/-! ### Equality -/

mutual

/-- Whether two models agree in all parts. -/
def beq : Model → Model → Bool
  | ⟨name, placement, isStatic, selfCollide, canonical, links, joints, frames, models, graph, unknown⟩,
    ⟨name', placement', isStatic', selfCollide', canonical', links', joints', frames', models', graph',
      unknown'⟩ =>
    name == name' && placement == placement' && isStatic == isStatic'
      && selfCollide == selfCollide' && canonical == canonical' && links == links'
      && joints == joints' && frames == frames' && beqAll models models' && graph == graph'
      && unknown == unknown'

/-- Whether two rows of models agree one by one. -/
def beqAll : List Model → List Model → Bool
  | [], [] => true
  | m :: ms, m' :: ms' => beq m m' && beqAll ms ms'
  | _, _ => false

end

instance : BEq Model := ⟨beq⟩

/-! ### The frames of a model -/

/-- The link that stands for the model. -/
def canonicalLink? (m : Model) : Option Link :=
  if m.canonicalLink = "" then m.links.head? else named? m.links m.canonicalLink

/-- The body that the frame of the model is attached to, and what is wrong with
the choice of it.  Without links the first nested model stands in. -/
def canonicalBody (m : Model) : String × Errors :=
  match m.canonicalLink? with
  | some link => (link.name, [])
  | none =>
    if m.canonicalLink = "" then
      ((m.models.head?.map Model.name).getD "", [])
    else
      ("", [.canonicalLinkInvalid m.canonicalLink m.name])

/-- The frame of a nested model. -/
def vertex (m : Model) : Vertex Float := m.placement.vertex m.name .model "" ""

/-- The pose of a model, by default in what holds it. -/
def semanticPose (m : Model) : SemanticPose Float := m.placement.ofVertex m.name ""

/-- Whether a joint carries a body of the model. -/
def carriesBody (m : Model) (j : Joint) : Bool :=
  j.child != worldFrame && (nameExists m.links j.child || nameExists m.models j.child)

/-- Add the frame of a joint, if it carries a body of the model. -/
def addJointVertex (m : Model) (d : Draft) (j : Joint) : Draft :=
  if m.carriesBody j then
    -- a joint from a body to itself is reported, but has a frame
    (d.report (if j.parent = j.child then [.jointParentIsChild j.name j.child] else [])).add j.vertex
  else
    d.report [.jointChildInvalid j.child j.name m.name]

/-- What is wrong with the frames that a joint names. -/
def jointErrors (g : FrameGraph Float) (j : Joint) : Errors :=
  (if j.parent ≠ worldFrame ∧ j.parent ≠ j.child ∧ !g.contains j.parent then
    [.frameNotFound j.parent s!"parent of joint [{j.name}]"] else [])
  ++ (if j.expressedIn ≠ "" ∧ !g.contains j.expressedIn then
    [.frameNotFound j.expressedIn s!"axis of joint [{j.name}]"] else [])

/-- The graph of the children, and what is wrong with it: links first, then
nested models, joints and explicit frames. -/
def draft (m : Model) : Draft :=
  let (canonical, es) := m.canonicalBody
  let d : Draft := { graph := .model canonical, errors := es }
  let d := d.addAll (m.links.map Link.vertex)
  let d := d.addAll (m.models.map vertex)
  let d := m.joints.foldl m.addJointVertex d
  let d := d.addAll (m.frames.map Frame.vertex)
  -- a joint may name a frame that comes after it, so its names are looked up last
  (d.report (m.joints.flatMap (jointErrors d.graph))).finish

/-- Replace the graph by that of the children, and report what is wrong with
it. -/
def rebuildScope (m : Model) : Model × Errors :=
  let d := m.draft
  ({ m with graph := d.graph }, d.errors)

mutual

/-- Replace the graphs of a model and of all models inside it. -/
def rebuild : Model → Model × Errors
  | ⟨name, placement, isStatic, selfCollide, canonicalLink, links, joints, frames, models, graph,
      unknown⟩ =>
    let (models, inner) := rebuildAll models
    -- graphs and errors of nested models come first
    let (m, own) := rebuildScope
      ⟨name, placement, isStatic, selfCollide, canonicalLink, links, joints, frames, models, graph,
        unknown⟩
    (m, inner ++ own)

/-- Replace the graphs of several models and of all models inside them. -/
def rebuildAll : List Model → List Model × Errors
  | [] => ([], [])
  | m :: ms =>
    let (m, es) := rebuild m
    let (ms, fs) := rebuildAll ms
    (m :: ms, es ++ fs)

end

/-! ### Editing -/

/-- Whether a name is that of a frame of the model. -/
def nameInUse (m : Model) (name : String) : Bool :=
  name == modelFrame || nameExists m.links name || nameExists m.joints name
    || nameExists m.frames name || nameExists m.models name

/-- Make an addition and rebuild the graph, unless the name of what is added is
taken. -/
def addWith {α : Type} [Named α] (m : Model) (item : α) (added : Model) : Model × Errors :=
  if m.nameInUse (Named.name item) then
    (m, [.duplicateName (Named.kind α) (Named.name item)])
  else
    added.rebuildScope

/-- Add a link, unless its name is taken. -/
def addLink (m : Model) (l : Link) : Model × Errors :=
  m.addWith l { m with links := m.links ++ [l] }

/-- Add a joint, unless its name is taken. -/
def addJoint (m : Model) (j : Joint) : Model × Errors :=
  m.addWith j { m with joints := m.joints ++ [j] }

/-- Add a frame, unless its name is taken. -/
def addFrame (m : Model) (f : Frame) : Model × Errors :=
  m.addWith f { m with frames := m.frames ++ [f] }

/-- Add a nested model, unless its name is taken. -/
def addModel (m : Model) (nested : Model) : Model × Errors :=
  m.addWith nested { m with models := m.models ++ [nested] }

/-- Remove all links. -/
def clearLinks (m : Model) : Model × Errors := { m with links := [] }.rebuildScope

/-- Remove all joints. -/
def clearJoints (m : Model) : Model × Errors := { m with joints := [] }.rebuildScope

/-- Remove all frames. -/
def clearFrames (m : Model) : Model × Errors := { m with frames := [] }.rebuildScope

/-- Remove all nested models. -/
def clearModels (m : Model) : Model × Errors := { m with models := [] }.rebuildScope

end Model

end Scene

/-
Worlds: models, explicit frames, lights and actors in one place.

The names of models and frames are frames of the scope of the world.  Lights and
actors are no frames, and the names of either are kept apart by themselves.
Like a model, a world keeps the graph of its scope beside its children; lights
and actors never change it.
-/
import Scene.Object.Actor
import Scene.Object.Model

namespace Scene

/-- A world. -/
structure World where
  name : String := ""
  gravity : Vec3 Float := ⟨0, 0, -9.8⟩
  magneticField : Vec3 Float := ⟨5.5645e-6, 22.8758e-6, -42.3884e-6⟩
  models : List Model := []
  frames : List Frame := []
  lights : List Light := []
  actors : List Actor := []
  /-- The frames of the world. -/
  graph : FrameGraph Float := .world
  /-- Children of its element that mean nothing here, kept to be written. -/
  unknown : List Element := []
deriving BEq

instance : Named World := ⟨"world", World.name⟩

namespace World

/-! ### The frames of a world -/

/-- The graph of the children, and what is wrong with it: models first, then
explicit frames. -/
def draft (w : World) : Draft :=
  let d : Draft := { graph := .world }
  ((d.addAll (w.models.map Model.vertex)).addAll (w.frames.map Frame.vertex)).finish

/-- Replace the graph by that of the children, and report what is wrong with
it. -/
def rebuildScope (w : World) : World × Errors :=
  let d := w.draft
  ({ w with graph := d.graph }, d.errors)

/-- Replace the graphs of the world and of all models inside it. -/
def rebuild (w : World) : World × Errors :=
  let (models, inner) := Model.rebuildAll w.models
  let (w, own) := { w with models }.rebuildScope
  (w, inner ++ own)

/-- The pose of a frame of the world in another one. -/
def resolvePose (w : World) (name relativeTo : String) : Except Errors (Pose Float) :=
  w.graph.resolvePose name relativeTo

/-! ### Editing -/

/-- Whether a name is that of a frame of the world. -/
def nameInUse (w : World) (name : String) : Bool :=
  name == worldFrame || nameExists w.models name || nameExists w.frames name

/-- Make an addition and rebuild the graph, unless the name of what is added is
taken. -/
def addWith {α : Type} [Named α] (w : World) (item : α) (added : World) : World × Errors :=
  if w.nameInUse (Named.name item) then
    (w, [.duplicateName (Named.kind α) (Named.name item)])
  else
    added.rebuildScope

/-- Add a model, unless its name is taken. -/
def addModel (w : World) (m : Model) : World × Errors :=
  w.addWith m { w with models := w.models ++ [m] }

/-- Add a frame, unless its name is taken. -/
def addFrame (w : World) (f : Frame) : World × Errors :=
  w.addWith f { w with frames := w.frames ++ [f] }

/-- Add a light, unless its name is taken. -/
def addLight (w : World) (l : Light) : World × Errors :=
  let (lights, es) := addUnique w.lights { l with owner := worldFrame }
  ({ w with lights }, es)

/-- Add an actor, unless its name is taken. -/
def addActor (w : World) (a : Actor) : World × Errors :=
  let (actors, es) := addUnique w.actors a
  ({ w with actors }, es)

/-- Remove all models. -/
def clearModels (w : World) : World × Errors := { w with models := [] }.rebuildScope

/-- Remove all frames. -/
def clearFrames (w : World) : World × Errors := { w with frames := [] }.rebuildScope

/-- Remove all lights. -/
def clearLights (w : World) : World := { w with lights := [] }

/-- Remove all actors. -/
def clearActors (w : World) : World := { w with actors := [] }

end World

end Scene

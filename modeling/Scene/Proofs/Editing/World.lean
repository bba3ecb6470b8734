/-
Worlds under editing.

A world has three kinds of names: those of frames, which models and explicit
frames share, those of lights, and those of actors.  Whatever is added and
cleared, in any order, the names of each kind differ, and the graph stays the
one that models and explicit frames give.

Only edits of models and frames draft the graph anew.  That the others do not
have to is the same as saying that a draft does not look at lights and actors.

Main statement: `orderly_after_edits`.
-/
import Mathlib.Data.List.Nodup
import Scene.Proofs.Frames.Drafted

namespace Scene.World

/-! ### Edits -/

/-- What a world can hold. -/
inductive Child
  | model (m : Model)
  | frame (f : Frame)
  | light (l : Light)
  | actor (a : Actor)

/-- The name of a child. -/
def Child.name : Child → String
  | .model m => m.name
  | .frame f => f.name
  | .light l => l.name
  | .actor a => a.name

/-- The word for the kind of a child. -/
def Child.kind : Child → String
  | .model _ => Named.kind Model
  | .frame _ => Named.kind Frame
  | .light _ => Named.kind Light
  | .actor _ => Named.kind Actor

/-- Add a child, unless its name is taken. -/
def add (w : World) : Child → World × Errors
  | .model m => w.addModel m
  | .frame f => w.addFrame f
  | .light l => w.addLight l
  | .actor a => w.addActor a

/-- The world with a child at the end of its collection, and the graph as it
was.  A light is told that it belongs to a world. -/
def put (w : World) : Child → World
  | .model m => { w with models := w.models ++ [m] }
  | .frame f => { w with frames := w.frames ++ [f] }
  | .light l => { w with lights := w.lights ++ [{ l with owner := worldFrame }] }
  | .actor a => { w with actors := w.actors ++ [a] }

/-- What can be done to the children of a world. -/
inductive Edit
  | add (c : Child)
  | clearModels
  | clearFrames
  | clearLights
  | clearActors

/-- The world after an edit. -/
def edit (w : World) : Edit → World
  | .add c => (w.add c).1
  | .clearModels => w.clearModels.1
  | .clearFrames => w.clearFrames.1
  | .clearLights => w.clearLights
  | .clearActors => w.clearActors

/-- The world after edits, whether or not some of them were refused. -/
def editAll (w : World) (edits : List Edit) : World := edits.foldl edit w

/-- The names of frames, that of the scope included. -/
def frameNames (w : World) : List String :=
  worldFrame :: (w.models.map Model.name ++ w.frames.map Frame.name)

/-- The names that a child cannot be added under. -/
def takenNames (w : World) : Child → List String
  | .model _ | .frame _ => w.frameNames
  | .light _ => w.lights.map Light.name
  | .actor _ => w.actors.map Actor.name

variable {w : World} {c : Child}

theorem nameInUse_iff {name : String} : w.nameInUse name = true ↔ name ∈ w.frameNames := by
  have hmodels : nameExists w.models name = true ↔ name ∈ w.models.map Model.name := nameExists_iff
  have hframes : nameExists w.frames name = true ↔ name ∈ w.frames.map Frame.name := nameExists_iff
  simp only [nameInUse, frameNames, Bool.or_eq_true, beq_iff_eq, List.mem_cons, List.mem_append,
    hmodels, hframes, or_assoc]

/-- The world with a child in its place, and the graph that belongs to it. -/
def placed (w : World) (c : Child) : World := { w.put c with graph := (w.put c).draft.graph }

theorem addWith_eq {α : Type} [Named α] (w : World) (x : α) (added : World) :
    w.addWith x added =
      if Named.name x ∈ w.frameNames then (w, [.duplicateName (Named.kind α) (Named.name x)])
      else added.rebuildScope := by
  simp only [addWith, nameInUse_iff]

/-- A child of a taken name is refused. -/
theorem add_of_mem (hc : c.name ∈ w.takenNames c) :
    w.add c = (w, [.duplicateName c.kind c.name]) := by
  cases c with
  | model m => exact (w.addWith_eq m _).trans (if_pos hc)
  | frame f => exact (w.addWith_eq f _).trans (if_pos hc)
  | light l =>
    have hunique := (addUnique_eq w.lights { l with owner := worldFrame }).trans (if_pos hc)
    simp only [add, addLight, hunique]
    rfl
  | actor a =>
    have hunique := (addUnique_eq w.actors a).trans (if_pos hc)
    simp only [add, addActor, hunique]
    rfl

/-- A child of a free name comes last in its collection.  The graph is drafted
anew for models and frames only, but the others would not change it. -/
theorem add_of_not_mem (hgraph : w.graph = w.draft.graph) (hc : c.name ∉ w.takenNames c) :
    (w.add c).1 = w.placed c ∧
      ((w.add c).2 = [] ∨ (w.add c).2 = (w.put c).draft.errors) := by
  cases c with
  | model m =>
    have hadd : w.add (.model m) = (w.put (.model m)).rebuildScope :=
      (w.addWith_eq m _).trans (if_neg hc)
    exact ⟨congrArg Prod.fst hadd, .inr (congrArg Prod.snd hadd)⟩
  | frame f =>
    have hadd : w.add (.frame f) = (w.put (.frame f)).rebuildScope :=
      (w.addWith_eq f _).trans (if_neg hc)
    exact ⟨congrArg Prod.fst hadd, .inr (congrArg Prod.snd hadd)⟩
  | light l =>
    have hunique := (addUnique_eq w.lights { l with owner := worldFrame }).trans (if_neg hc)
    have hadd : w.add (.light l) = (w.put (.light l), []) := by
      simp only [add, addLight, hunique]
      rfl
    -- a draft looks at models and explicit frames only
    have hdraft : (w.put (.light l)).draft = w.draft := rfl
    rw [hadd, placed, hdraft, ← hgraph]
    exact ⟨rfl, .inl rfl⟩
  | actor a =>
    have hunique := (addUnique_eq w.actors a).trans (if_neg hc)
    have hadd : w.add (.actor a) = (w.put (.actor a), []) := by
      simp only [add, addActor, hunique]
      rfl
    have hdraft : (w.put (.actor a)).draft = w.draft := rfl
    rw [hadd, placed, hdraft, ← hgraph]
    exact ⟨rfl, .inl rfl⟩

/-! ### Orderly worlds -/

/-- A world whose names differ, and whose graph is that of its children. -/
structure Orderly (w : World) : Prop where
  frames : w.frameNames.Nodup
  lights : (w.lights.map Light.name).Nodup
  actors : (w.actors.map Actor.name).Nodup
  owner : ∀ l ∈ w.lights, l.owner = worldFrame
  graph : w.graph = w.draft.graph

/-- A draft of frames whose names differ finds no name taken. -/
theorem makes_of_nodup (h : w.frameNames.Nodup) :
    w.draft.Makes w.vertices ∧ ∀ e ∈ w.draft.errors, e.OfScope := by
  have hnames : w.vertices.map Vertex.name = w.frameNames := by
    simp only [vertices, List.map_cons, List.map_append, List.map_map]
    rfl
  exact makes_vertices (hnames ▸ h)

theorem placed_ne (w : World) (c : Child) : w.placed c ≠ w := by
  intro heq
  -- the collection of the child is longer by one
  cases c with
  | model m => simpa [placed, put] using congrArg (fun w : World => w.models.length) heq
  | frame f => simpa [placed, put] using congrArg (fun w : World => w.frames.length) heq
  | light l => simpa [placed, put] using congrArg (fun w : World => w.lights.length) heq
  | actor a => simpa [placed, put] using congrArg (fun w : World => w.actors.length) heq

theorem orderly_placed (h : w.Orderly) (hc : c.name ∉ w.takenNames c) : (w.placed c).Orderly := by
  have hlast {names : List String} (hnames : names.Nodup) (hfree : c.name ∉ names) :
      (names ++ [c.name]).Nodup := by
    simpa using hnames.concat hfree
  cases c with
  | model m =>
    refine ⟨?_, h.lights, h.actors, h.owner, rfl⟩
    -- the name of a model comes before those of explicit frames
    have hmiddle : ((worldFrame :: w.models.map Model.name)
        ++ m.name :: w.frames.map Frame.name).Nodup :=
      List.nodup_middle.mpr (List.nodup_cons.mpr ⟨hc, h.frames⟩)
    simpa [frameNames, placed, put] using hmiddle
  | frame f =>
    refine ⟨?_, h.lights, h.actors, h.owner, rfl⟩
    simpa [frameNames, placed, put, Child.name] using hlast h.frames hc
  -- lights and actors have names of their own, so those of frames are as they were
  | light l =>
    refine ⟨h.frames, ?_, h.actors, ?_, rfl⟩
    · simpa [placed, put, Child.name] using hlast h.lights hc
    · exact List.forall_mem_append.mpr ⟨h.owner, List.forall_mem_singleton.mpr rfl⟩
  | actor a =>
    refine ⟨h.frames, h.lights, ?_, h.owner, rfl⟩
    simpa [placed, put, Child.name] using hlast h.actors hc

/-! ### One edit -/

/-- What an addition comes to.  Either the name was taken, that is reported, and
the world is as it was; or it was free, no name is reported as taken, and the
child stands in its place. -/
theorem Orderly.add_cases (h : w.Orderly) (c : Child) :
    (c.name ∈ w.takenNames c ∧ (∃ e ∈ (w.add c).2, e.code = .duplicateName) ∧ (w.add c).1 = w) ∨
    (c.name ∉ w.takenNames c ∧ (∀ e ∈ (w.add c).2, e.code ≠ .duplicateName) ∧
      (w.add c).1 = w.placed c) := by
  by_cases hc : c.name ∈ w.takenNames c
  · rw [add_of_mem hc]
    exact .inl ⟨hc, ⟨_, List.mem_singleton_self _, rfl⟩, rfl⟩
  · obtain ⟨hplaced, herrors⟩ := add_of_not_mem h.graph hc
    refine .inr ⟨hc, fun e he => ?_, hplaced⟩
    -- errors are those of a draft, if there are any, and its names differ
    rcases herrors with heq | heq
    · simp [heq] at he
    · rw [heq] at he
      exact ((makes_of_nodup (orderly_placed h hc).frames).2 e he).code_ne

theorem Orderly.add (h : w.Orderly) (c : Child) : (w.add c).1.Orderly := by
  rcases h.add_cases c with ⟨-, -, hsame⟩ | ⟨hc, -, hplaced⟩
  · rwa [hsame]
  · rw [hplaced]
    exact orderly_placed h hc

/-- With fewer models and frames their names still differ. -/
theorem Orderly.of_sublist {v : World} (h : w.Orderly) (hmodels : v.models.Sublist w.models)
    (hframes : v.frames.Sublist w.frames) (hlights : v.lights = w.lights)
    (hactors : v.actors = w.actors) : v.rebuildScope.1.Orderly := by
  have hnames : v.frameNames.Sublist w.frameNames :=
    ((hmodels.map _).append (hframes.map _)).cons_cons worldFrame
  refine ⟨h.frames.sublist hnames, ?_, ?_, ?_, rfl⟩
  · exact hlights ▸ h.lights
  · exact hactors ▸ h.actors
  · exact hlights ▸ h.owner

/-- No edit makes a world disorderly. -/
theorem Orderly.edit (h : w.Orderly) (e : Edit) : (w.edit e).Orderly := by
  cases e with
  | add c => exact h.add c
  | clearModels => exact h.of_sublist (List.nil_sublist _) (.refl _) rfl rfl
  | clearFrames => exact h.of_sublist (.refl _) (List.nil_sublist _) rfl rfl
  -- these two draft nothing, and need not
  | clearLights => exact ⟨h.frames, List.nodup_nil, h.actors, List.forall_mem_nil _, h.graph⟩
  | clearActors => exact ⟨h.frames, h.lights, List.nodup_nil, h.owner, h.graph⟩

/-! ### Many edits -/

theorem orderly_new (name : String) : Orderly { name } :=
  ⟨by simp [frameNames], List.nodup_nil, List.nodup_nil, by simp, rfl⟩

theorem Orderly.editAll (h : w.Orderly) (edits : List Edit) : (w.editAll edits).Orderly := by
  induction edits generalizing w with
  | nil => exact h
  | cons e edits ih => exact ih (h.edit e)

/-- **Worlds stay in order under editing.**  After any edits of a new world the
names of each kind differ, lights belong to a world, and the graph holds the
frame of the world, those of its models and its explicit frames.  An addition
then reports a taken name, or leaves the world as it was, exactly if the name of
the child is taken; else the child stands last in its collection, and at most
the graph is new besides.  Lights and actors come and go without any effect on
the graph, or on models and frames. -/
theorem orderly_after_edits (name : String) (edits : List Edit) :
    let w := editAll { name } edits
    (worldFrame :: (w.models.map Model.name ++ w.frames.map Frame.name)).Nodup ∧
    (w.lights.map Light.name).Nodup ∧ (w.actors.map Actor.name).Nodup ∧
    (∀ l ∈ w.lights, l.owner = worldFrame) ∧
    w.graph.vertices.toList = w.vertices ∧
    (∀ c : Child,
      ((∃ e ∈ (w.add c).2, e.code = .duplicateName) ↔ c.name ∈ w.takenNames c) ∧
      ((w.add c).1 = w ↔ c.name ∈ w.takenNames c) ∧
      (c.name ∈ w.takenNames c ∨ (w.add c).1 = { w.put c with graph := (w.add c).1.graph })) ∧
    (∀ l, (w.addLight l).1 = { w with lights := (w.addLight l).1.lights }) ∧
    (∀ a, (w.addActor a).1 = { w with actors := (w.addActor a).1.actors }) ∧
    w.clearLights = { w with lights := [] } ∧ w.clearActors = { w with actors := [] } := by
  intro w
  have h : w.Orderly := (orderly_new name).editAll edits
  refine ⟨h.frames, h.lights, h.actors, h.owner, ?_, fun c => ?_, fun _ => rfl, fun _ => rfl, rfl,
    rfl⟩
  · rw [h.graph]
    exact (makes_of_nodup h.frames).1.vertices
  · rcases h.add_cases c with ⟨hc, hreports, hsame⟩ | ⟨hc, hreports, hplaced⟩
    · exact ⟨iff_of_true hreports hc, iff_of_true hsame hc, .inl hc⟩
    · refine ⟨iff_of_false ?_ hc, iff_of_false (hplaced ▸ placed_ne w c) hc, .inr ?_⟩
      · rintro ⟨e, he, hcode⟩
        exact hreports e he hcode
      · rw [hplaced]
        rfl

/-- A light may have the name of a model, but an explicit frame may not. -/
example :
    let w := editAll { name := "hall" }
      [.add (.model { name := "lamp" }), .add (.light { name := "lamp" }),
        .add (.frame { name := "lamp" })]
    (w.models.length, w.lights.length, w.frames.length) = (1, 1, 0) := by
  decide +kernel

end Scene.World

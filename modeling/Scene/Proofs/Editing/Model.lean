/-
Models under editing.

Whatever is added to a model and cleared again, in any order, the names of its
children stay different from each other and from that of its scope, and its
graph stays the one that its children give.  Both are what `Orderly` says; one
edit keeps it, and so does any row of edits.

A joint can come into the graph, or fall out of it, when a link or a nested
model does.  This needs no argument of its own, since each edit that is not
refused drafts the graph anew.  What needs one is that the new draft finds no
name taken: the frames in the graph are among the children, and the names of
the children differ.

Main statement: `orderly_of_edits`.
-/
import Mathlib.Data.List.Perm.Basic
import Scene.Proofs.Frames.Drafted

namespace Scene.Model

/-! ### Edits -/

/-- What a model can hold. -/
inductive Child
  | link (l : Link)
  | joint (j : Joint)
  | frame (f : Frame)
  | model (k : Model)

/-- The name of a child. -/
def Child.name : Child → String
  | .link l => l.name
  | .joint j => j.name
  | .frame f => f.name
  | .model k => k.name

/-- The word for the kind of a child. -/
def Child.kind : Child → String
  | .link _ => Named.kind Link
  | .joint _ => Named.kind Joint
  | .frame _ => Named.kind Frame
  | .model _ => Named.kind Model

/-- Add a child, unless its name is taken. -/
def add (m : Model) : Child → Model × Errors
  | .link l => m.addLink l
  | .joint j => m.addJoint j
  | .frame f => m.addFrame f
  | .model k => m.addModel k

/-- The model with a child at the end of its collection, and the graph as it
was. -/
def put (m : Model) : Child → Model
  | .link l => { m with links := m.links ++ [l] }
  | .joint j => { m with joints := m.joints ++ [j] }
  | .frame f => { m with frames := m.frames ++ [f] }
  | .model k => { m with models := m.models ++ [k] }

/-- What can be done to the children of a model. -/
inductive Edit
  | add (c : Child)
  | clearLinks
  | clearJoints
  | clearFrames
  | clearModels

/-- The model after an edit, and what was wrong with it. -/
def edit (m : Model) : Edit → Model × Errors
  | .add c => m.add c
  | .clearLinks => m.clearLinks
  | .clearJoints => m.clearJoints
  | .clearFrames => m.clearFrames
  | .clearModels => m.clearModels

/-- The model after edits, whether or not some of them were refused. -/
def editAll (m : Model) (edits : List Edit) : Model := edits.foldl (fun m e => (m.edit e).1) m

/-- The names of the children. -/
def names (m : Model) : List String :=
  m.links.map Link.name ++ m.models.map Model.name ++ m.joints.map Joint.name
    ++ m.frames.map Frame.name

/-- The names that no child can be added under. -/
def takenNames (m : Model) : List String := modelFrame :: m.names

variable {m : Model} {c : Child}

theorem nameInUse_iff {name : String} : m.nameInUse name = true ↔ name ∈ m.takenNames := by
  have hlinks : nameExists m.links name = true ↔ name ∈ m.links.map Link.name := nameExists_iff
  have hmodels : nameExists m.models name = true ↔ name ∈ m.models.map Model.name := nameExists_iff
  have hjoints : nameExists m.joints name = true ↔ name ∈ m.joints.map Joint.name := nameExists_iff
  have hframes : nameExists m.frames name = true ↔ name ∈ m.frames.map Frame.name := nameExists_iff
  simp only [nameInUse, takenNames, names, Bool.or_eq_true, beq_iff_eq, List.mem_cons,
    List.mem_append, hlinks, hmodels, hjoints, hframes]
  grind

/-- A child of a taken name is refused, and any other one is put in its place
before the graph is drafted. -/
theorem add_eq (m : Model) (c : Child) : m.add c =
    if c.name ∈ m.takenNames then (m, [.duplicateName c.kind c.name])
    else (m.put c).rebuildScope := by
  -- the four additions differ only in the collection that the child comes to
  have key {α : Type} [Named α] (x : α) (added : Model) : m.addWith x added =
      if Named.name x ∈ m.takenNames then (m, [.duplicateName (Named.kind α) (Named.name x)])
      else added.rebuildScope := by
    simp only [addWith, nameInUse_iff]
  cases c with
  | link l => exact key l _
  | joint j => exact key j _
  | frame f => exact key f _
  | model k => exact key k _

/-! ### Orderly models -/

/-- A model whose names differ, and whose graph is that of its children. -/
structure Orderly (m : Model) : Prop where
  distinct : m.takenNames.Nodup
  graph : m.graph = m.draft.graph

/-- The names of the frames in the graph are among those of the children. -/
theorem sublist_takenNames (m : Model) :
    (m.placedVertices.map Vertex.name).Sublist m.takenNames := by
  have hnames : m.placedVertices.map Vertex.name =
      modelFrame :: (m.links.map Link.name ++ m.models.map Model.name
        ++ (m.joints.filter m.carriesBody).map Joint.name ++ m.frames.map Frame.name) := by
    simp only [placedVertices, List.map_cons, List.map_append, List.map_map]
    rfl
  -- the same row, but for joints that carry no body and so are not in the graph
  rw [hnames]
  exact (((List.Sublist.refl _).append (List.filter_sublist.map _)).append
    (List.Sublist.refl _)).cons_cons _

/-- A draft of children whose names differ finds no name taken. -/
theorem makes_of_nodup (h : m.takenNames.Nodup) :
    m.draft.Makes m.placedVertices ∧ ∀ e ∈ m.draft.errors, e.OfScope :=
  makes_placedVertices (h.sublist m.sublist_takenNames)

/-- Wherever a child is put, its name comes to those of the others. -/
theorem perm_names_put (m : Model) (c : Child) : (m.put c).names.Perm (c.name :: m.names) := by
  cases c with
  | link l => simp [put, names, Child.name]
  -- a name in the middle of the row can be taken to its front
  | joint j =>
    have h := @List.perm_middle _ j.name (m.links.map Link.name ++ m.models.map Model.name
      ++ m.joints.map Joint.name) (m.frames.map Frame.name)
    simpa [put, names, Child.name] using h
  | frame f =>
    have h := @List.perm_append_singleton _ f.name m.names
    simpa [put, names, Child.name] using h
  | model k =>
    have h := @List.perm_middle _ k.name (m.links.map Link.name ++ m.models.map Model.name)
      (m.joints.map Joint.name ++ m.frames.map Frame.name)
    simpa [put, names, Child.name] using h

theorem nodup_put (h : m.takenNames.Nodup) (hc : c.name ∉ m.takenNames) :
    (m.put c).takenNames.Nodup := by
  obtain ⟨hscope, hnames⟩ := List.nodup_cons.mp h
  obtain ⟨hne, hfree⟩ := List.ne_and_not_mem_of_not_mem_cons hc
  have hperm := m.perm_names_put c
  refine List.nodup_cons.mpr ⟨?_, hperm.nodup_iff.mpr (List.nodup_cons.mpr ⟨hfree, hnames⟩)⟩
  rw [hperm.mem_iff]
  exact List.not_mem_cons_of_ne_of_not_mem (Ne.symm hne) hscope

theorem names_rebuildScope (m : Model) : m.rebuildScope.1.names = m.names := rfl

theorem orderly_rebuildScope (h : m.takenNames.Nodup) : m.rebuildScope.1.Orderly :=
  -- children are not touched, and the graph is the draft by definition
  ⟨h, rfl⟩

/-! ### One edit -/

/-- With fewer children the names still differ. -/
theorem Orderly.of_sublist {k : Model} (h : m.Orderly) (hlinks : k.links.Sublist m.links)
    (hmodels : k.models.Sublist m.models) (hjoints : k.joints.Sublist m.joints)
    (hframes : k.frames.Sublist m.frames) : k.rebuildScope.1.Orderly := by
  have hnames : k.names.Sublist m.names :=
    (((hlinks.map _).append (hmodels.map _)).append (hjoints.map _)).append (hframes.map _)
  exact orderly_rebuildScope (h.distinct.sublist (hnames.cons_cons modelFrame))

theorem Orderly.add (h : m.Orderly) (c : Child) : (m.add c).1.Orderly := by
  rw [add_eq]
  split
  · exact h
  · next hfree => exact orderly_rebuildScope (nodup_put h.distinct hfree)

/-- No edit makes a model disorderly. -/
theorem Orderly.edit (h : m.Orderly) (e : Edit) : (m.edit e).1.Orderly := by
  cases e with
  | add c => exact h.add c
  | clearLinks => exact h.of_sublist (List.nil_sublist _) (.refl _) (.refl _) (.refl _)
  | clearModels => exact h.of_sublist (.refl _) (List.nil_sublist _) (.refl _) (.refl _)
  | clearJoints => exact h.of_sublist (.refl _) (.refl _) (List.nil_sublist _) (.refl _)
  | clearFrames => exact h.of_sublist (.refl _) (.refl _) (.refl _) (List.nil_sublist _)

/-- What an addition comes to.  Either the name was taken, that is reported, and
the model is as it was; or it was free, no name is reported as taken, and the
child stands last in its collection. -/
theorem Orderly.add_cases (h : m.Orderly) (c : Child) :
    (c.name ∈ m.takenNames ∧ (∃ e ∈ (m.add c).2, e.code = .duplicateName) ∧ (m.add c).1 = m) ∨
    (c.name ∉ m.takenNames ∧ (∀ e ∈ (m.add c).2, e.code ≠ .duplicateName) ∧ (m.add c).1 ≠ m ∧
      (m.add c).1 = { m.put c with graph := (m.put c).draft.graph }) := by
  rw [add_eq]
  by_cases hc : c.name ∈ m.takenNames
  · rw [if_pos hc]
    exact .inl ⟨hc, ⟨_, List.mem_singleton_self _, rfl⟩, rfl⟩
  · rw [if_neg hc]
    obtain ⟨-, hreports⟩ := makes_of_nodup (nodup_put h.distinct hc)
    refine .inr ⟨hc, fun e he => (hreports e he).code_ne, ?_, rfl⟩
    -- the model has got one more name, so it is another one
    intro heq
    have hnames := congrArg names heq
    have hlength := (m.perm_names_put c).length_eq
    rw [← names_rebuildScope, hnames, List.length_cons] at hlength
    omega

/-! ### Many edits -/

theorem orderly_new (name : String) : Orderly { name } :=
  ⟨by simp [takenNames, names], rfl⟩

theorem Orderly.editAll (h : m.Orderly) (edits : List Edit) : (m.editAll edits).Orderly := by
  induction edits generalizing m with
  | nil => exact h
  | cons e edits ih => exact ih (h.edit e)

/-- **Models stay in order under editing.**  After any edits of a new model the
names of its children differ from each other and from that of the scope, and its
graph is the one that the children give.  An addition then reports a taken name,
or leaves the model as it was, exactly if the name of the child is taken; else
the child stands last in its collection, and nothing else but the graph is
new. -/
theorem orderly_of_edits (name : String) (edits : List Edit) :
    let m := editAll { name } edits
    m.takenNames.Nodup ∧
    m.graph = m.draft.graph ∧
    m.graph.vertices.toList = m.placedVertices ∧
    ∀ c : Child,
      ((∃ e ∈ (m.add c).2, e.code = .duplicateName) ↔ c.name ∈ m.takenNames) ∧
      ((m.add c).1 = m ↔ c.name ∈ m.takenNames) ∧
      (c.name ∈ m.takenNames ∨ (m.add c).1 = { m.put c with graph := (m.put c).draft.graph }) := by
  intro m
  have h : m.Orderly := (orderly_new name).editAll edits
  refine ⟨h.distinct, h.graph, ?_, fun c => ?_⟩
  · rw [h.graph]
    exact (makes_of_nodup h.distinct).1.vertices
  · rcases h.add_cases c with ⟨hc, hreports, hsame⟩ | ⟨hc, hreports, hother, hput⟩
    · exact ⟨iff_of_true hreports hc, iff_of_true hsame hc, .inl hc⟩
    · refine ⟨iff_of_false ?_ hc, iff_of_false hother hc, .inr hput⟩
      rintro ⟨e, he, hcode⟩
      exact hreports e he hcode

/-- A joint comes into the graph when its child does, and an explicit frame is
refused under the name of a joint. -/
example :
    (editAll { name := "arm" }
      [.add (.joint { name := "wrist", type := .fixed, parent := "world", child := "hand" }),
        .add (.link { name := "hand" }), .add (.frame { name := "wrist" })]).graph.vertices.toList.map
      Vertex.name = ["__model__", "hand", "wrist"] := by
  decide +kernel

end Scene.Model

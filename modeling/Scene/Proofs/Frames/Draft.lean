/-
Graphs under construction.

Frames are added one after the other, and a frame whose name is taken is left
out with an error.  So there are no errors exactly if all names differ, and
then the graph holds all the frames that were added, in order.

For a model this gives the whole of what can be wrong with its graph
(`draft_errors_eq_nil_iff`), and its frames if nothing is (`Model.vertices`).
-/
import Scene.Object.World
import Scene.Proofs.Firsts
import Scene.Proofs.Frames.Index

namespace Scene

open FrameGraph

/-! ### Adding frames -/

namespace Draft

variable {d : Draft} {v : Vertex Float} {vs ws : List (Vertex Float)}

@[simp] theorem graph_report (d : Draft) (es : Errors) : (d.report es).graph = d.graph := rfl

@[simp] theorem errors_report (d : Draft) (es : Errors) :
    (d.report es).errors = d.errors ++ es := rfl

/-- The graph holds these frames, in this order, and their names differ. -/
structure Makes (d : Draft) (vs : List (Vertex Float)) : Prop where
  indexed : d.graph.Indexed
  vertices : d.graph.vertices.toList = vs
  nodup : (vs.map Vertex.name).Nodup

/-- A report leaves the frames that were made. -/
theorem Makes.report (h : d.Makes vs) (es : Errors) : (d.report es).Makes vs :=
  ⟨h.indexed, h.vertices, h.nodup⟩

/-- The frames of the graph are those that were made. -/
theorem Makes.mem_iff (h : d.Makes vs) : v ∈ d.graph.vertices ↔ v ∈ vs := by
  rw [← h.vertices, Array.mem_toList_iff]

/-- The names that are taken are those of the frames that were made. -/
theorem Makes.contains_iff (h : d.Makes vs) {name : String} :
    d.graph.contains name = true ↔ name ∈ vs.map Vertex.name := by
  rw [h.indexed.contains_iff]
  simp only [h.indexed.vertex?_eq_some_iff, h.mem_iff, List.mem_map]

/-- A frame of a fresh name is added, without an error. -/
theorem Makes.add (h : d.Makes vs) (hv : ((vs ++ [v]).map Vertex.name).Nodup) :
    (d.add v).Makes (vs ++ [v]) ∧ (d.add v).errors = d.errors := by
  have hfree : d.graph.contains v.name = false := by
    rw [← Bool.not_eq_true, h.contains_iff]
    rw [List.map_append, List.nodup_append] at hv
    exact fun hmem => hv.2.2 _ hmem _ (by simp) rfl
  have hadd : d.graph.add v
      = .ok ⟨d.graph.vertices.push v, d.graph.index.insert v.name d.graph.vertices.size⟩ :=
    add_eq_ok_iff.mpr ⟨hfree, rfl⟩
  rw [Draft.add, hadd]
  refine ⟨⟨h.indexed.add hadd, ?_, hv⟩, rfl⟩
  rw [Array.toList_push, h.vertices]

/-- Where a frame is added without an error, its name was fresh. -/
theorem Makes.nodup_of_errors_add (h : d.Makes vs) (hadd : (d.add v).errors = []) :
    ((vs ++ [v]).map Vertex.name).Nodup := by
  -- a name that was taken would have been reported
  have hfree : d.graph.contains v.name = false := by
    cases hc : d.graph.contains v.name with
    | true => simp [Draft.add, FrameGraph.add, hc] at hadd
    | false => rfl
  rw [← Bool.not_eq_true, h.contains_iff] at hfree
  rw [List.map_append, List.nodup_append]
  refine ⟨h.nodup, by simp, ?_⟩
  rintro a ha b hb rfl
  rw [List.map_singleton, List.mem_singleton] at hb
  exact hfree (hb ▸ ha)

/-! ### Steps that add frames -/

/-- A step that adds some frames.  It reports nothing exactly if something
holds and the names of all frames differ. -/
structure Adds (d d' : Draft) (good : Prop) (ws : List (Vertex Float)) : Prop where
  errors_of_errors : d'.errors = [] → d.errors = []
  errors_iff : ∀ {vs}, d.Makes vs →
    (d'.errors = [] ↔ d.errors = [] ∧ good ∧ ((vs ++ ws).map Vertex.name).Nodup)
  makes : ∀ {vs}, d.Makes vs → good → ((vs ++ ws).map Vertex.name).Nodup → d'.Makes (vs ++ ws)

theorem nodup_of_append {vs ws us : List (Vertex Float)}
    (h : ((vs ++ (ws ++ us)).map Vertex.name).Nodup) : ((vs ++ ws).map Vertex.name).Nodup := by
  rw [← List.append_assoc, List.map_append] at h
  exact (List.nodup_append.mp h).1

/-- Two stages of a draft add their frames one after the other. -/
theorem Adds.trans {d d' d'' : Draft} {p q : Prop} {ws us : List (Vertex Float)}
    (h : Adds d d' p ws) (h' : Adds d' d'' q us) : Adds d d'' (p ∧ q) (ws ++ us) where
  errors_of_errors := fun hd => h.errors_of_errors (h'.errors_of_errors hd)
  errors_iff := by
    intro vs hvs
    constructor
    · -- an error of the first step would still be there after the second
      intro hd
      obtain ⟨hnil, hp, hn⟩ := (h.errors_iff hvs).mp (h'.errors_of_errors hd)
      obtain ⟨-, hq, hn'⟩ := (h'.errors_iff (h.makes hvs hp hn)).mp hd
      exact ⟨hnil, ⟨hp, hq⟩, List.append_assoc vs ws us ▸ hn'⟩
    · rintro ⟨hnil, ⟨hp, hq⟩, hn⟩
      have hn' := nodup_of_append hn
      refine (h'.errors_iff (h.makes hvs hp hn')).mpr
        ⟨(h.errors_iff hvs).mpr ⟨hnil, hp, hn'⟩, hq, ?_⟩
      rwa [List.append_assoc]
  makes := by
    rintro vs hvs ⟨hp, hq⟩ hn
    have := h'.makes (h.makes hvs hp (nodup_of_append hn)) hq (by rwa [List.append_assoc])
    rwa [List.append_assoc] at this

/-- One frame is a stage of its own. -/
theorem adds_add (d : Draft) (v : Vertex Float) : Adds d (d.add v) True [v] where
  errors_of_errors := by
    intro h
    unfold Draft.add at h
    split at h
    · exact h
    · simp at h
  errors_iff := by
    intro vs hvs
    rw [true_and]
    constructor
    · intro h
      have hn := hvs.nodup_of_errors_add h
      exact ⟨(hvs.add hn).2 ▸ h, hn⟩
    · rintro ⟨hd, hn⟩
      rw [(hvs.add hn).2, hd]
  makes := fun hvs _ hn => (hvs.add hn).1

/-- Reporting adds no frames. -/
theorem adds_report (d : Draft) (es : Errors) : Adds d (d.report es) (es = []) [] where
  errors_of_errors := fun h => (List.append_eq_nil_iff.mp h).1
  errors_iff := by
    intro vs hvs
    rw [errors_report, List.append_eq_nil_iff, List.append_nil]
    exact ⟨fun h => ⟨h.1, h.2, hvs.nodup⟩, fun h => ⟨h.1, h.2.1⟩⟩
  makes := fun hvs _ _ => ⟨hvs.indexed, by simpa using hvs.vertices, by simpa using hvs.nodup⟩

/-- Many steps, each of which adds one frame. -/
theorem adds_foldl {α : Type} {step : Draft → α → Draft} {frame : α → Vertex Float}
    {good : α → Prop} (hstep : ∀ d x, Adds d (step d x) (good x) [frame x]) (d : Draft)
    (xs : List α) : Adds d (xs.foldl step d) (∀ x ∈ xs, good x) (xs.map frame) := by
  -- the rest of the steps go on from the draft of the first
  induction xs generalizing d with
  | nil =>
    refine ⟨id, fun hvs => ?_, fun hvs _ _ => ?_⟩
    · simp [hvs.nodup]
    · simpa using hvs
  | cons x xs ih =>
    have h := (hstep d x).trans (ih (step d x))
    rw [List.singleton_append] at h
    simpa only [List.foldl_cons, List.forall_mem_cons, List.map_cons] using h

/-- A row of frames is a stage of its own. -/
theorem adds_addAll (d : Draft) (ws : List (Vertex Float)) : Adds d (d.addAll ws) True ws := by
  have h := adds_foldl adds_add d ws
  simpa [Draft.addAll] using h

/-- A draft begins with its scope as the only frame. -/
theorem makes_ofScope {scope : Vertex Float} (h : scope.kind = .scope) (es : Errors) :
    Makes { graph := .ofScope scope, errors := es } [scope] :=
  ⟨indexed_ofScope h, rfl, by simp⟩

end Draft

/-! ### The graph of a model -/

namespace Model

/-- The frame of the model itself. -/
def scopeVertex (m : Model) : Vertex Float :=
  { name := modelFrame, kind := .scope, pose := .identity, attachedTo := m.canonicalBody.1 }

/-- The frames of what a model holds: links, nested models, joints and explicit
frames. -/
def childVertices (m : Model) : List (Vertex Float) :=
  m.links.map Link.vertex ++ m.models.map vertex ++ m.joints.map Joint.vertex
    ++ m.frames.map Frame.vertex

/-- The frames of a model, its own first. -/
def vertices (m : Model) : List (Vertex Float) := m.scopeVertex :: m.childVertices

/-- Whether a joint has a frame, and joins two different bodies. -/
def Joins (m : Model) (j : Joint) : Prop := m.carriesBody j = true ∧ j.parent ≠ j.child

/-- A joint is a stage of its own, without errors only if it joins. -/
theorem adds_addJointVertex (m : Model) (d : Draft) (j : Joint) :
    Draft.Adds d (m.addJointVertex d j) (m.Joins j) [j.vertex] := by
  unfold addJointVertex Joins
  by_cases hbody : m.carriesBody j = true
  · have h := (d.adds_report (if j.parent = j.child then [.jointParentIsChild j.name j.child]
      else [])).trans (Draft.adds_add _ j.vertex)
    by_cases hsame : j.parent = j.child
    · simpa [hbody, hsame] using h
    · simpa [hbody, hsame] using h
  · simp only [hbody, Bool.false_eq_true, if_false, false_and]
    have h := d.adds_report [.jointChildInvalid j.child j.name m.name]
    -- the joint is left out, with an error
    refine ⟨h.errors_of_errors, fun hvs => ?_, fun _ hfalse => hfalse.elim⟩
    rw [h.errors_iff hvs]
    simp

/-- The draft before the names in joints and the references are checked. -/
def draftOfFrames (m : Model) : Draft :=
  (m.joints.foldl m.addJointVertex
    ((({ graph := .model m.canonicalBody.1, errors := m.canonicalBody.2 } : Draft).addAll
      (m.links.map Link.vertex)).addAll (m.models.map vertex))).addAll (m.frames.map Frame.vertex)

/-- After all frames, errors of joints come before those of references. -/
theorem draft_eq (m : Model) : m.draft =
    (m.draftOfFrames.report (m.joints.flatMap (jointErrors m.draftOfFrames.graph))).finish := rfl

/-- What it takes for nothing to be wrong with the graph of a model. -/
structure Consistent (m : Model) : Prop where
  canonical : m.canonicalBody.2 = []
  distinct : (m.vertices.map Vertex.name).Nodup
  joints : ∀ j ∈ m.joints, m.Joins j
  named : ∀ j ∈ m.joints, jointErrors m.draft.graph j = []
  references : m.draft.graph.validate = []

/-- The stage of a model adds all its frames but the scope. -/
theorem adds_draftOfFrames (m : Model) :
    Draft.Adds { graph := .model m.canonicalBody.1, errors := m.canonicalBody.2 } m.draftOfFrames
      (∀ j ∈ m.joints, m.Joins j) m.childVertices := by
  have h := (((Draft.adds_addAll { graph := .model m.canonicalBody.1, errors := m.canonicalBody.2 }
    (m.links.map Link.vertex)).trans (Draft.adds_addAll _ (m.models.map vertex))).trans
    (Draft.adds_foldl m.adds_addJointVertex _ m.joints)).trans
    (Draft.adds_addAll _ (m.frames.map Frame.vertex))
  -- of all the stages only that of the joints has a condition of its own
  simp only [true_and, and_true] at h
  exact h

/-- The graph of a model holds exactly its frames, if their names differ and
every joint has one. -/
theorem makes_draft {m : Model} (hdistinct : (m.vertices.map Vertex.name).Nodup)
    (hjoints : ∀ j ∈ m.joints, m.Joins j) : m.draft.Makes m.vertices := by
  have hscope := Draft.makes_ofScope (show m.scopeVertex.kind = .scope from rfl) m.canonicalBody.2
  have h := m.adds_draftOfFrames.makes hscope hjoints hdistinct
  exact ⟨h.indexed, h.vertices, h.nodup⟩

/-- A consistent model makes all its frames. -/
theorem Consistent.makes {m : Model} (h : m.Consistent) : m.draft.Makes m.vertices :=
  makes_draft h.distinct h.joints

/-- **What can be wrong with the graph of a model.** -/
theorem draft_errors_eq_nil_iff (m : Model) : m.draft.errors = [] ↔ m.Consistent := by
  have hscope := Draft.makes_ofScope (show m.scopeVertex.kind = .scope from rfl) m.canonicalBody.2
  have h : m.draftOfFrames.errors = [] ↔ _ := m.adds_draftOfFrames.errors_iff hscope
  -- errors are only ever added, so there is none at the end if no stage adds one
  rw [draft_eq, Draft.finish, Draft.errors_report, Draft.errors_report, List.append_eq_nil_iff,
    List.append_eq_nil_iff, h, List.flatMap_eq_nil_iff]
  constructor
  · rintro ⟨⟨⟨hcanonical, hjoints, hdistinct⟩, hnamed⟩, hreferences⟩
    exact ⟨hcanonical, hdistinct, hjoints, hnamed, hreferences⟩
  · rintro ⟨hcanonical, hdistinct, hjoints, hnamed, hreferences⟩
    exact ⟨⟨⟨hcanonical, hjoints, hdistinct⟩, hnamed⟩, hreferences⟩

end Model

/-! ### The graph of a world -/

namespace World

/-- The frame of the world itself. -/
def scopeVertex : Vertex Float := { name := worldFrame, kind := .scope, pose := .identity }

/-- The frames of a world: its own, then those of its models and explicit
frames. -/
def vertices (w : World) : List (Vertex Float) :=
  scopeVertex :: (w.models.map Model.vertex ++ w.frames.map Frame.vertex)

/-- The draft before the references are checked. -/
def draftOfFrames (w : World) : Draft :=
  (({ graph := .world } : Draft).addAll (w.models.map Model.vertex)).addAll
    (w.frames.map Frame.vertex)

/-- The stage of a world adds all its frames but the scope. -/
theorem adds_draftOfFrames (w : World) :
    Draft.Adds { graph := .world } w.draftOfFrames True
      (w.models.map Model.vertex ++ w.frames.map Frame.vertex) := by
  have h := (Draft.adds_addAll { graph := .world } (w.models.map Model.vertex)).trans
    (Draft.adds_addAll _ (w.frames.map Frame.vertex))
  simp only [and_true] at h
  exact h

/-- A world with distinct names makes all its frames. -/
theorem makes_draft {w : World} (hdistinct : (w.vertices.map Vertex.name).Nodup) :
    w.draft.Makes w.vertices := by
  have hscope := Draft.makes_ofScope (show scopeVertex.kind = .scope from rfl) []
  have h := w.adds_draftOfFrames.makes hscope trivial hdistinct
  exact ⟨h.indexed, h.vertices, h.nodup⟩

/-- What can be wrong with the graph of a world. -/
theorem draft_errors_eq_nil_iff (w : World) : w.draft.errors = [] ↔
    (w.vertices.map Vertex.name).Nodup ∧ w.draft.graph.validate = [] := by
  have hscope := Draft.makes_ofScope (show scopeVertex.kind = .scope from rfl) []
  have h : w.draftOfFrames.errors = [] ↔ _ := w.adds_draftOfFrames.errors_iff hscope
  have hdraft : w.draft = w.draftOfFrames.finish := rfl
  rw [hdraft, Draft.finish, Draft.errors_report, List.append_eq_nil_iff, h]
  simp only [true_and]
  rfl

end World

end Scene

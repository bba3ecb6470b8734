/-
Graphs that are built again.

The frames of a model know a nested model by its name and place only.  So it
does not matter for the graph of a model whether the graphs inside it have been
built again before; and building all of them again comes to building each from
the children that are there.

Main statement: `rebuild_eq`.
-/
import Scene.Proofs.Frames.Draft

namespace Scene.Model

variable {m : Model} {ms : List Model}

/-! ### Nested models by their frames -/

/-- The names are those of the frames. -/
theorem map_name_of_map_vertex (h : ms.map vertex = m.models.map vertex) :
    ms.map Model.name = m.models.map Model.name := by
  have hnames := congrArg (List.map Vertex.name) h
  rwa [List.map_map, List.map_map] at hnames

/-- The canonical body depends on the frames of nested models only. -/
theorem canonicalBody_of_map_vertex (h : ms.map vertex = m.models.map vertex) :
    ({ m with models := ms } : Model).canonicalBody = m.canonicalBody := by
  -- of the nested models, the body of a model looks at the name of the first only
  have hhead : ms.head?.map Model.name = m.models.head?.map Model.name := by
    rw [← List.head?_map, ← List.head?_map, map_name_of_map_vertex h]
  have hlink : ({ m with models := ms } : Model).canonicalLink? = m.canonicalLink? := rfl
  simp only [canonicalBody, hlink, hhead]

/-- So does the way in which a joint is added. -/
theorem addJointVertex_of_map_vertex (h : ms.map vertex = m.models.map vertex) :
    ({ m with models := ms } : Model).addJointVertex = m.addJointVertex := by
  -- a joint looks at their names, to see whether its child is among them
  have hmodels (name : String) : nameExists ms name = nameExists m.models name := by
    rw [Bool.eq_iff_iff, nameExists_iff, nameExists_iff]
    exact iff_of_eq (congrArg _ (map_name_of_map_vertex h))
  have hbody (j : Joint) : ({ m with models := ms } : Model).carriesBody j = m.carriesBody j := by
    simp only [carriesBody, hmodels]
  funext d j
  simp only [addJointVertex, hbody]

/-- Models whose nested models have the same frames draft the same graph. -/
theorem draft_of_map_vertex (h : ms.map vertex = m.models.map vertex) :
    ({ m with models := ms } : Model).draft = m.draft := by
  simp only [draft, canonicalBody_of_map_vertex h, addJointVertex_of_map_vertex h, h]

/-! ### Building again -/

/-- Building its graph again does not touch the frame of a model in the scope
around it. -/
theorem vertex_rebuild (m : Model) : m.rebuild.1.vertex = m.vertex := by
  obtain ⟨⟩ := m
  rw [rebuild]
  rfl

/-- The models of a row are rebuilt one by one. -/
theorem rebuildAll_fst (ms : List Model) : (rebuildAll ms).1 = ms.map fun m => m.rebuild.1 := by
  induction ms with
  | nil => rfl
  | cons m ms ih =>
    rw [List.map_cons, ← ih]
    rfl

/-- Rebuilding models leaves the frames that stand for them. -/
theorem map_vertex_rebuildAll (ms : List Model) :
    (rebuildAll ms).1.map vertex = ms.map vertex := by
  rw [rebuildAll_fst, List.map_map]
  exact List.map_congr_left fun m _ => m.vertex_rebuild

/-- **Building all graphs again** builds that of the model itself from its
children, whatever becomes of the graphs inside. -/
theorem rebuild_eq (m : Model) : m.rebuild =
    ({ m with models := (rebuildAll m.models).1, graph := m.draft.graph },
      (rebuildAll m.models).2 ++ m.draft.errors) := by
  have hdraft := draft_of_map_vertex (map_vertex_rebuildAll m.models)
  -- the draft is made beside models that were built again, which it cannot tell from the old ones
  rw [← hdraft]
  obtain ⟨⟩ := m
  rw [rebuild]
  rfl

/-- The graph of a rebuilt model is that of its draft. -/
theorem graph_rebuild (m : Model) : m.rebuild.1.graph = m.draft.graph := by
  rw [rebuild_eq]

/-- If nothing is reported then nothing is wrong with the graph of the model itself. -/
theorem consistent_of_rebuild (h : m.rebuild.2 = []) : m.Consistent := by
  rw [rebuild_eq] at h
  exact m.draft_errors_eq_nil_iff.mp (List.append_eq_nil_iff.mp h).2

end Scene.Model

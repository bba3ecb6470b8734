/-
How the graph of a scope is drafted.

Whatever a model or a world holds, the draft of its graph comes about by adding
frames, one after the other, with reports in between.  `Drafted` says so, and
two things follow from it by one induction each.

* Errors are reports about the scope, or say that a name is taken; no reader of
  a draft meets any other.
* If the names of all frames differ then the graph holds all of them, and no
  error says that a name is taken.

In contrast to `Draft.Adds` nothing is assumed here of the joints of a model: a
joint that does not carry a body of the model is simply not among the frames.
-/
import Scene.Proofs.Frames.Draft

namespace Scene

open FrameGraph

/-! ### Reports about a scope -/

/-- What is reported about a scope, clashes of names aside. -/
inductive Error.OfScope : Error → Prop
  | frameNotFound (name context : String) : OfScope (.frameNotFound name context)
  | poseCycle (path : List String) : OfScope (.poseCycle path)
  | attachedToNotFound (name scope : String) : OfScope (.attachedToNotFound name scope)
  | attachedToCycle (path : List String) : OfScope (.attachedToCycle path)
  | jointChildInvalid (child joint model : String) : OfScope (.jointChildInvalid child joint model)
  | jointParentIsChild (joint child : String) : OfScope (.jointParentIsChild joint child)
  | canonicalLinkInvalid (link model : String) : OfScope (.canonicalLinkInvalid link model)

/-- An error of a scope is not that of a name used twice. -/
theorem Error.OfScope.code_ne {e : Error} (h : e.OfScope) : e.code ≠ .duplicateName := by
  cases h <;> simp [Error.code]

/-- What validation finds is an error of a scope. -/
theorem ofScope_of_mem_validate {R : Type} {g : FrameGraph R} {e : Error}
    (h : e ∈ g.validate) : e.OfScope := by
  rcases List.mem_append.mp h with h | h
  · obtain ⟨finding, -, rfl⟩ := List.mem_map.mp h
    cases finding with
    | missing referrer name => exact .frameNotFound name _
    | loop members => exact .poseCycle _
  · obtain ⟨finding, -, rfl⟩ := List.mem_map.mp h
    cases finding with
    | missing referrer name => exact .attachedToNotFound name _
    | loop members => exact .attachedToCycle _

/-! ### Adding and reporting -/

namespace Draft

variable {d d' d'' : Draft} {us vs ws : List (Vertex Float)}

/-- A draft comes from another one by adding these frames, with reports in
between. -/
inductive Drafted (d : Draft) : List (Vertex Float) → Draft → Prop
  | refl : Drafted d [] d
  | add {d' : Draft} {vs : List (Vertex Float)} (v : Vertex Float) :
      Drafted d vs d' → Drafted d (vs ++ [v]) (d'.add v)
  | report {d' : Draft} {vs : List (Vertex Float)} {es : Errors} :
      (∀ e ∈ es, e.OfScope) → Drafted d vs d' → Drafted d vs (d'.report es)

/-- Two stages of a draft, one after the other. -/
theorem Drafted.trans (h : Drafted d vs d') (h' : Drafted d' ws d'') :
    Drafted d (vs ++ ws) d'' := by
  induction h' with
  | refl => rwa [List.append_nil]
  | add v _ ih =>
    rw [← List.append_assoc]
    exact ih.add v
  | report hes _ ih => exact ih.report hes

/-- Many steps, each of which adds some frames. -/
theorem drafted_foldl {α : Type} {step : Draft → α → Draft} {frames : α → List (Vertex Float)}
    (hstep : ∀ d x, Drafted d (frames x) (step d x)) (d : Draft) (xs : List α) :
    Drafted d (xs.flatMap frames) (xs.foldl step d) := by
  induction xs generalizing d with
  | nil => exact .refl
  | cons x xs ih =>
    rw [List.flatMap_cons, List.foldl_cons]
    exact (hstep d x).trans (ih (step d x))

/-- A row of frames that are tried one by one. -/
theorem drafted_addAll (d : Draft) (vs : List (Vertex Float)) : Drafted d vs (d.addAll vs) := by
  have h : Drafted d (vs.flatMap fun v => [v]) (d.addAll vs) :=
    drafted_foldl (fun _ v => Drafted.refl.add v) d vs
  rwa [List.flatMap_singleton'] at h

/-- Validation at the end adds errors of a scope only. -/
theorem Drafted.finish (h : Drafted d vs d') : Drafted d vs d'.finish :=
  h.report fun _ => ofScope_of_mem_validate

/-! ### What a draft reports -/

/-- A report about a scope, or a clash of names. -/
def IsReport (e : Error) : Prop := e.OfScope ∨ ∃ name scope, e = .frameNameTaken name scope

/-- Trying a frame gives no error, or the one that its name is taken. -/
theorem errors_add (d : Draft) (v : Vertex Float) :
    (d.add v).errors = d.errors ∨
      (d.add v).errors = d.errors ++ [.frameNameTaken v.name d.graph.scopeName] := by
  unfold Draft.add FrameGraph.add
  cases d.graph.contains v.name with
  | false => exact .inl rfl
  | true => exact .inr rfl

/-- Nothing else is reported. -/
theorem Drafted.isReport (h : Drafted d vs d') (hd : ∀ e ∈ d.errors, IsReport e) :
    ∀ e ∈ d'.errors, IsReport e := by
  induction h with
  | refl => exact hd
  | @add d' _ v _ ih =>
    rcases errors_add d' v with heq | heq
    · rw [heq]
      exact ih
    · rw [heq, List.forall_mem_append]
      exact ⟨ih, List.forall_mem_singleton.mpr (.inr ⟨_, _, rfl⟩)⟩
  | report hes _ ih =>
    rw [errors_report, List.forall_mem_append]
    exact ⟨ih, fun e he => .inl (hes e he)⟩

/-- **Frames whose names differ are all added,** and no name is reported as
taken. -/
theorem Drafted.makes (h : Drafted d vs d') (hd : d.Makes us) (herrors : ∀ e ∈ d.errors, e.OfScope)
    (hdistinct : ((us ++ vs).map Vertex.name).Nodup) :
    d'.Makes (us ++ vs) ∧ ∀ e ∈ d'.errors, e.OfScope := by
  induction h with
  | refl => exact ⟨by rwa [List.append_nil], herrors⟩
  | add v _ ih =>
    -- the frames before the last differ in name as well, and from the last one
    rw [← List.append_assoc] at hdistinct ⊢
    have hearlier := hdistinct
    rw [List.map_append] at hearlier
    obtain ⟨hmakes, hreports⟩ := ih (List.nodup_append.mp hearlier).1
    obtain ⟨hmakes', heq⟩ := hmakes.add hdistinct
    exact ⟨hmakes', heq ▸ hreports⟩
  | report hes _ ih =>
    obtain ⟨hmakes, hreports⟩ := ih hdistinct
    refine ⟨hmakes.report _, ?_⟩
    rw [errors_report, List.forall_mem_append]
    exact ⟨hreports, hes⟩

end Draft

open Draft

/-! ### Models -/

namespace Model

/-- The frames in the graph of a model: its own, then those of links, nested
models, joints that carry a body of the model, and explicit frames. -/
def placedVertices (m : Model) : List (Vertex Float) :=
  m.scopeVertex :: (m.links.map Link.vertex ++ m.models.map vertex
    ++ (m.joints.filter m.carriesBody).map Joint.vertex ++ m.frames.map Frame.vertex)

/-- What the draft of a model begins with. -/
def scopeDraft (m : Model) : Draft :=
  { graph := .model m.canonicalBody.1, errors := m.canonicalBody.2 }

/-- What is reported of a canonical body is an error of a scope. -/
theorem ofScope_canonicalBody (m : Model) : ∀ e ∈ m.canonicalBody.2, e.OfScope := by
  unfold canonicalBody
  split
  · simp
  · split
    · simp
    · exact List.forall_mem_singleton.mpr (.canonicalLinkInvalid _ _)

/-- What is reported of a joint is an error of a scope. -/
theorem ofScope_jointErrors (g : FrameGraph Float) (j : Joint) :
    ∀ e ∈ jointErrors g j, e.OfScope := by
  have hnotFound {p : Prop} [Decidable p] (name context : String) :
      ∀ e ∈ (if p then [Error.frameNotFound name context] else []), e.OfScope := by
    split
    · exact List.forall_mem_singleton.mpr (.frameNotFound name context)
    · simp
  exact List.forall_mem_append.mpr ⟨hnotFound _ _, hnotFound _ _⟩

/-- A joint adds its frame, if it has one. -/
theorem drafted_addJointVertex (m : Model) (d : Draft) (j : Joint) :
    Drafted d (([j].filter m.carriesBody).map Joint.vertex) (m.addJointVertex d j) := by
  unfold addJointVertex
  by_cases hbody : m.carriesBody j = true
  · rw [if_pos hbody, List.filter_cons_of_pos hbody]
    refine Drafted.add j.vertex (Drafted.report ?_ .refl)
    split
    · exact List.forall_mem_singleton.mpr (.jointParentIsChild _ _)
    · simp
  · rw [if_neg hbody, List.filter_cons_of_neg hbody]
    exact Drafted.report (List.forall_mem_singleton.mpr (.jointChildInvalid _ _ _)) .refl

/-- Of the joints, those are tried whose child is a body of the model. -/
theorem drafted_joints (m : Model) (d : Draft) :
    Drafted d ((m.joints.filter m.carriesBody).map Joint.vertex)
      (m.joints.foldl m.addJointVertex d) := by
  have h := drafted_foldl m.drafted_addJointVertex d m.joints
  -- a frame or none for each joint comes to the joints that have one
  have hframes (js : List Joint) :
      js.flatMap (fun j => ([j].filter m.carriesBody).map Joint.vertex) =
        (js.filter m.carriesBody).map Joint.vertex := by
    induction js with
    | nil => rfl
    | cons j js ih =>
      rw [List.flatMap_cons, ih, ← List.map_append, ← List.filter_append, List.singleton_append]
  rwa [hframes] at h

/-- The draft of a model tries its placed frames one by one. -/
theorem drafted_draft (m : Model) : Drafted m.scopeDraft m.placedVertices.tail m.draft := by
  have hframes : Drafted m.scopeDraft m.placedVertices.tail m.draftOfFrames :=
    (((drafted_addAll m.scopeDraft (m.links.map Link.vertex)).trans
      (drafted_addAll _ (m.models.map vertex))).trans (m.drafted_joints _)).trans
      (drafted_addAll _ (m.frames.map Frame.vertex))
  have hnamed : ∀ e ∈ m.joints.flatMap (jointErrors m.draftOfFrames.graph), e.OfScope := by
    intro e he
    obtain ⟨j, -, he⟩ := List.mem_flatMap.mp he
    exact ofScope_jointErrors _ j e he
  exact (hframes.report hnamed).finish

/-- What is wrong with the graph of a model is a report about its scope. -/
theorem isReport_of_mem_draft (m : Model) : ∀ e ∈ m.draft.errors, IsReport e :=
  m.drafted_draft.isReport fun e he => .inl (m.ofScope_canonicalBody e he)

/-- The graph of a model whose frames have different names. -/
theorem makes_placedVertices {m : Model}
    (hdistinct : (m.placedVertices.map Vertex.name).Nodup) :
    m.draft.Makes m.placedVertices ∧ ∀ e ∈ m.draft.errors, e.OfScope :=
  m.drafted_draft.makes (makes_ofScope (show m.scopeVertex.kind = .scope from rfl) _)
    m.ofScope_canonicalBody hdistinct

end Model

/-! ### Worlds -/

namespace World

/-- The draft of a world tries its frames one by one. -/
theorem drafted_draft (w : World) : Drafted { graph := .world } w.vertices.tail w.draft :=
  ((drafted_addAll _ (w.models.map Model.vertex)).trans
    (drafted_addAll _ (w.frames.map Frame.vertex))).finish

/-- What is wrong with the graph of a world is a report about its scope. -/
theorem isReport_of_mem_draft (w : World) : ∀ e ∈ w.draft.errors, IsReport e :=
  w.drafted_draft.isReport (by simp)

/-- The graph of a world whose frames have different names. -/
theorem makes_vertices {w : World} (hdistinct : (w.vertices.map Vertex.name).Nodup) :
    w.draft.Makes w.vertices ∧ ∀ e ∈ w.draft.errors, e.OfScope :=
  w.drafted_draft.makes (makes_ofScope (show scopeVertex.kind = .scope from rfl) []) (by simp)
    hdistinct

end World

end Scene

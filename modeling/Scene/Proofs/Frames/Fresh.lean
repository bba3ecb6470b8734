/-
Graphs that are up to date.

A model keeps a graph beside its children, and so does every model in it.  An
edit in place can leave any of these graphs behind its children, at any depth.
Building them again brings all of them up to date, whatever they were before, and
touches nothing else; then there is nothing left for a second time to change, and
it reports what the first one did.

A model that was read is up to date already.  Its reader builds one graph only,
but the models in it were read in the same way before it: so this is an induction
on the element, with the graph of the model itself as the step.

Main statement: `rebuild_refreshes`.
-/
import Scene.Proofs.Frames.Rebuild
import Scene.Proofs.Reading.Origin

namespace Scene

open Element Reported

/-! ### Models -/

namespace Model

/-- From the models in a model to the model. -/
theorem induction_models {p : Model → Prop} (h : ∀ m, (∀ k ∈ m.models, p k) → p m) (m : Model) :
    p m :=
  h m fun k _hk => induction_models h k
termination_by sizeOf m
decreasing_by
  obtain ⟨⟩ := m
  have := List.sizeOf_lt_of_mem _hk
  simp only [Model.mk.sizeOf_spec] at this ⊢
  omega

/-- The graph of the model is the one that its children give, and so it is in all
models in it. -/
inductive Fresh : Model → Prop
  | mk (m : Model) : m.graph = m.draft.graph → (∀ k ∈ m.models, k.Fresh) → m.Fresh

mutual

/-- The model without the graphs: all that building them must leave alone. -/
def bare : Model → Model
  | ⟨name, placement, isStatic, selfCollide, canonicalLink, links, joints, frames, models, _,
      unknown⟩ =>
    ⟨name, placement, isStatic, selfCollide, canonicalLink, links, joints, frames, bareAll models,
      .model "", unknown⟩

/-- Several models without the graphs. -/
def bareAll : List Model → List Model
  | [] => []
  | m :: ms => bare m :: bareAll ms

end

/-- The models of a row are bared one by one. -/
theorem bareAll_eq (ms : List Model) : bareAll ms = ms.map bare := by
  induction ms with
  | nil => rfl
  | cons m ms ih => rw [bareAll, ih, List.map_cons]

/-- A bare model has bare models, and a graph that says nothing. -/
theorem bare_eq (m : Model) :
    m.bare = { m with models := m.models.map bare, graph := .model "" } := by
  obtain ⟨⟩ := m
  rw [bare, bareAll_eq]

/-- Rebuilding a model rebuilds the models in it. -/
theorem models_rebuild (m : Model) :
    m.rebuild.1.models = m.models.map fun k => k.rebuild.1 := by
  rw [rebuild_eq, rebuildAll_fst]

/-- The errors of a row of models come in its order. -/
theorem rebuildAll_snd (ms : List Model) :
    (rebuildAll ms).2 = ms.flatMap fun m => m.rebuild.2 := by
  induction ms with
  | nil => rfl
  | cons m ms ih =>
    rw [List.flatMap_cons, ← ih]
    rfl

/-- What is wrong with the models in a model is reported before what is wrong with
its own graph. -/
theorem errors_rebuild (m : Model) :
    m.rebuild.2 = (m.models.flatMap fun k => k.rebuild.2) ++ m.draft.errors := by
  rw [rebuild_eq, rebuildAll_snd]

/-- The graph that the children give does not depend on any that is kept. -/
theorem draft_rebuild (m : Model) : m.rebuild.1.draft = m.draft := by
  rw [rebuild_eq]
  exact draft_of_map_vertex (map_vertex_rebuildAll m.models)

/-- Built again, all graphs are up to date. -/
theorem fresh_rebuild (m : Model) : m.rebuild.1.Fresh := by
  induction m using induction_models with
  | h m ih =>
    refine .mk _ ?_ fun k hk => ?_
    · rw [draft_rebuild, graph_rebuild]
    · rw [models_rebuild] at hk
      obtain ⟨n, hn, rfl⟩ := List.mem_map.mp hk
      exact ih n hn

/-- Nothing but graphs is built again. -/
theorem bare_rebuild (m : Model) : m.rebuild.1.bare = m.bare := by
  induction m using induction_models with
  | h m ih =>
    have hmodels : (m.models.map fun k => k.rebuild.1).map bare = m.models.map bare := by
      rw [List.map_map]
      exact List.map_congr_left ih
    rw [rebuild_eq, rebuildAll_fst, bare_eq, bare_eq]
    simp only [hmodels]

/-- A model that is up to date stays as it is. -/
theorem Fresh.rebuild_fst {m : Model} (h : m.Fresh) : m.rebuild.1 = m := by
  induction h with
  | mk m hgraph _ ih =>
    have hmodels : (m.models.map fun k => k.rebuild.1) = m.models :=
      (List.map_congr_left ih).trans (List.map_id' _)
    rw [rebuild_eq, rebuildAll_fst, hmodels, ← hgraph]
    -- that a record is made of its fields does not hold by definition if it nests
    obtain ⟨⟩ := m
    rfl

/-- Building the graphs a second time is the same as building them once. -/
theorem rebuild_rebuild (m : Model) : m.rebuild.1.rebuild = m.rebuild := by
  refine Prod.ext m.fresh_rebuild.rebuild_fst ?_
  -- the reports of a model are those of the models in it, and its own
  induction m using induction_models with
  | h m ih =>
    rw [errors_rebuild, errors_rebuild, draft_rebuild, models_rebuild, List.flatMap_map]
    exact congrArg (· ++ m.draft.errors) (List.flatMap_congr ih)

/-- The reader of a model builds the graph of the model, and no other. -/
theorem graph_of_ofElement {e : Element} {m : Model} (h : (ofElement e).value = some m) :
    m.graph = m.draft.graph := by
  obtain ⟨_, -, rfl⟩ := exists_of_ofElement h
  rfl

/-- A model is up to date when it has been read, whatever is wrong with it. -/
theorem fresh_of_ofElement {e : Element} {m : Model} (h : (ofElement e).value = some m) :
    m.Fresh := by
  induction e using induction_children generalizing m with
  | h e ih =>
    refine .mk m (graph_of_ofElement h) fun k hk => ?_
    -- a model in the model was read from a child of the element, by the same reader
    obtain ⟨c, hc, hread⟩ := exists_read_of_nested h hk
    exact ih c hc hread

end Model

/-! ### Worlds -/

namespace World

/-- The graph of the world is the one that its children give, and all models in it
are up to date. -/
structure Fresh (w : World) : Prop where
  graph : w.graph = w.draft.graph
  models : ∀ m ∈ w.models, m.Fresh

/-- The world without the graphs. -/
def bare (w : World) : World := { w with models := w.models.map Model.bare, graph := .world }

/-- The draft of a world sees only the frames of its models. -/
theorem draft_of_map_vertex {w : World} {ms : List Model}
    (h : ms.map Model.vertex = w.models.map Model.vertex) :
    ({ w with models := ms } : World).draft = w.draft := by
  simp only [draft, h]

/-- Rebuilding a world rebuilds its models, and gives it the graph of its draft. -/
theorem rebuild_eq (w : World) : w.rebuild =
    ({ w with models := w.models.map fun m => m.rebuild.1, graph := w.draft.graph },
      (w.models.flatMap fun m => m.rebuild.2) ++ w.draft.errors) := by
  rw [← draft_of_map_vertex (Model.map_vertex_rebuildAll w.models), ← Model.rebuildAll_fst,
    ← Model.rebuildAll_snd]
  rfl

/-- A rebuilt world drafts as it did before. -/
theorem draft_rebuild (w : World) : w.rebuild.1.draft = w.draft := by
  rw [rebuild_eq, ← Model.rebuildAll_fst]
  exact draft_of_map_vertex (Model.map_vertex_rebuildAll w.models)

/-- A rebuilt world is fresh. -/
theorem fresh_rebuild (w : World) : w.rebuild.1.Fresh where
  graph := by rw [draft_rebuild, rebuild_eq]
  models := by
    rw [rebuild_eq]
    exact List.forall_mem_map.mpr fun m _ => m.fresh_rebuild

/-- Rebuilding changes nothing of a world but graphs. -/
theorem bare_rebuild (w : World) : w.rebuild.1.bare = w.bare := by
  have hmodels : (w.models.map fun m => m.rebuild.1).map Model.bare = w.models.map Model.bare := by
    rw [List.map_map]
    exact List.map_congr_left fun m _ => m.bare_rebuild
  rw [rebuild_eq]
  simp only [bare, hmodels]

/-- Rebuilding a fresh world changes nothing. -/
theorem Fresh.rebuild_fst {w : World} (h : w.Fresh) : w.rebuild.1 = w := by
  have hmodels : (w.models.map fun m => m.rebuild.1) = w.models :=
    (List.map_congr_left fun m hm => (h.models m hm).rebuild_fst).trans (List.map_id' _)
  simp only [rebuild_eq, hmodels, ← h.graph]

/-- Rebuilding twice is rebuilding once, with the same errors. -/
theorem rebuild_rebuild (w : World) : w.rebuild.1.rebuild = w.rebuild := by
  refine Prod.ext w.fresh_rebuild.rebuild_fst ?_
  rw [rebuild_eq w.rebuild.1, draft_rebuild, rebuild_eq]
  simp only [List.flatMap_map, Model.rebuild_rebuild]

/-- A world is up to date when it has been read. -/
theorem fresh_of_ofElement {e : Element} {w : World} (h : (ofElement e).value = some w) :
    w.Fresh := by
  obtain ⟨name, -, h⟩ := exists_of_value_bind rfl h
  obtain rfl := Option.some.inj h
  exact ⟨rfl, forall_mem_readAll fun _ _ _ => Model.fresh_of_ofElement⟩

end World

/-! ### Documents -/

namespace Document

/-- **Building graphs brings them up to date.**  Whatever state a model or a world
is in, afterwards its graph and those of all models in it are what their children
give, nothing but graphs is different, and a second time changes nothing and
reports the same.  What was read is up to date: a model, a world, and every world
and every model, at any depth, of a document that was loaded. -/
theorem rebuild_refreshes :
    (∀ m : Model,
      m.rebuild.1.Fresh ∧ m.rebuild.1.bare = m.bare ∧ m.rebuild.1.rebuild = m.rebuild) ∧
    (∀ w : World,
      w.rebuild.1.Fresh ∧ w.rebuild.1.bare = w.bare ∧ w.rebuild.1.rebuild = w.rebuild) ∧
    (∀ e m, (Model.ofElement e).value = some m → m.rebuild.1 = m) ∧
    (∀ e w, (World.ofElement e).value = some w → w.rebuild.1 = w) ∧
    ∀ before policy text, (Element.ofDocument text).isOk = true →
      (∀ w ∈ (load before policy text).document.worlds, w.rebuild.1 = w) ∧
      ∀ m, (load before policy text).document.Holds m → m.rebuild.1 = m := by
  refine ⟨?_, ?_, ?_, ?_, ?_⟩
  · intro m
    exact ⟨m.fresh_rebuild, m.bare_rebuild, m.rebuild_rebuild⟩
  · intro w
    exact ⟨w.fresh_rebuild, w.bare_rebuild, w.rebuild_rebuild⟩
  · intro e m hm
    exact (Model.fresh_of_ofElement hm).rebuild_fst
  · intro e w hw
    exact (World.fresh_of_ofElement hw).rebuild_fst
  · intro before policy text h
    obtain ⟨root, hroot⟩ := exists_load_eq before policy h
    rw [hroot]
    refine ⟨fun w hw => ?_, fun m hm => ?_⟩
    · obtain ⟨_, hread⟩ := exists_read_of_world hw
      exact (World.fresh_of_ofElement hread).rebuild_fst
    · obtain ⟨_, hread⟩ := exists_read_of_holds hm
      exact (Model.fresh_of_ofElement hread).rebuild_fst

/-- A model with a link in a model in it, before any graph is built. -/
def unbuiltCart : Model :=
  { name := "cart", models := [{ name := "arm", links := [{ name := "hand" }] }] }

/-- A model with a model in it, which has no body. -/
def cartElement : Element :=
  { tag := "model", attributes := [("name", "cart")],
    children := [{ tag := "model", attributes := [("name", "arm")] }] }

/-- A world with that model in it. -/
def yardElement : Element :=
  { tag := "world", attributes := [("name", "yard")], children := [cartElement] }

/-- What was loaded stays as it is, and what was read too, in spite of an error in
it; what was put together without its graphs does not. -/
theorem rebuild_refreshes_cart :
    (Element.ofDocument armElement.toDocument).isOk = true ∧
    (load .empty .standard armElement.toDocument).document.Holds armModel ∧
    armModel.rebuild.1 = armModel ∧
    (∃ m, (Model.ofElement cartElement).value = some m ∧ m.rebuild.1 = m) ∧
    (∃ w, (World.ofElement yardElement).value = some w ∧ w.rebuild.1 = w) ∧
    (World.ofElement yardElement).errors .standard = [.modelWithoutLink "model 'arm'"] ∧
    unbuiltCart.graph.contains "arm" = false ∧ unbuiltCart.rebuild.1.graph.contains "arm" = true ∧
    unbuiltCart.rebuild.1.rebuild = unbuiltCart.rebuild := by
  obtain ⟨hmodel, -, hreadModel, hreadWorld, hload⟩ := rebuild_refreshes
  have hsomeModel : (Model.ofElement cartElement).value.isSome = true := by decide +kernel
  have hsomeWorld : (World.ofElement yardElement).value.isSome = true := by decide +kernel
  obtain ⟨m, hm⟩ := Option.isSome_iff_exists.mp hsomeModel
  obtain ⟨w, hw⟩ := Option.isSome_iff_exists.mp hsomeWorld
  obtain ⟨-, hmodels⟩ := hload .empty .standard _ isOk_armElement
  exact ⟨isOk_armElement, holds_armModel, hmodels armModel holds_armModel,
    ⟨m, hm, hreadModel _ m hm⟩, ⟨w, hw, hreadWorld _ w hw⟩, by decide +kernel, by decide +kernel,
    by decide +kernel, (hmodel unbuiltCart).2.2⟩

end Document

end Scene

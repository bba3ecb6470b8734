/-
The bodies that the frames of a model move with.

A model has a body of its own, `bodyName`: the link that stands for it, or else
the first model in it, or else only its own frame.  If nothing is wrong with the
graph then the frame of the model is attached to this body, and so is whatever is
attached to nothing else; a joint moves with its child, and an explicit frame
with what it is attached to.

The frame of the model is attached to a name, and an empty one means that there
is no body.  So it is here that the names of the bodies must not be empty.

Main statement: `attachedBody_of_rebuild`.
-/
import Scene.Proofs.Frames.Answers
import Scene.Proofs.Frames.Rebuild

namespace Scene.Model

open FrameGraph

variable {m : Model}

/-! ### The body of a model -/

/-- The body of a model: the link that stands for it, else the first model in
it, else its own frame. -/
def bodyName (m : Model) : String :=
  match m.canonicalLink? with
  | some l => l.name
  | none => (m.models.head?.map Model.name).getD modelFrame

/-- The canonical link is one of the links. -/
theorem mem_of_canonicalLink? {l : Link} (h : m.canonicalLink? = some l) : l ∈ m.links := by
  unfold canonicalLink? at h
  split at h
  · exact List.mem_of_head? h
  · exact List.mem_of_find?_eq_some h

/-- The frame of a model is attached to nothing, or to a body that is in the
graph. -/
theorem canonicalBody_cases (hlinks : ∀ l ∈ m.links, l.name ≠ "")
    (hmodels : ∀ k ∈ m.models, k.name ≠ "") (h : m.canonicalBody.2 = []) :
    (m.canonicalBody.1 = "" ∧ m.bodyName = modelFrame) ∨
    (m.canonicalBody.1 = m.bodyName ∧ m.bodyName ≠ "" ∧
      ∃ w ∈ m.vertices, w.name = m.bodyName ∧ IsBody w) := by
  unfold canonicalBody at h ⊢
  unfold bodyName
  cases hlink : m.canonicalLink? with
  | some l =>
    have hl := mem_of_canonicalLink? hlink
    exact .inr ⟨rfl, hlinks l hl, l.vertex, mem_vertices_link hl, rfl, .inl rfl⟩
  | none =>
    rw [hlink] at h
    dsimp only at h ⊢
    -- a link that is named as canonical and is not there would be an error
    split at h
    · next hempty =>
      rw [if_pos hempty]
      cases hmodel : m.models.head? with
      | none => exact .inl ⟨rfl, rfl⟩
      | some k =>
        have hk := List.mem_of_head? hmodel
        exact .inr ⟨rfl, hmodels k hk, k.vertex, mem_vertices_model hk, rfl, .inr rfl⟩
    · cases h

/-! ### Graphs with nothing wrong -/

namespace Consistent

variable (h : m.Consistent)

include h

/-- The scope of a consistent model has the name that all scopes of models have. -/
theorem scopeName_eq : m.draft.graph.scopeName = modelFrame := by
  have hfirst : m.draft.graph.vertices[0]? = some m.scopeVertex := by
    rw [← Array.getElem?_toList, h.makes.vertices]
    rfl
  rw [scopeName, hfirst]
  rfl

/-- The scope of a model is carried by its canonical body. -/
theorem attachedBody_modelFrame (hlinks : ∀ l ∈ m.links, l.name ≠ "")
    (hmodels : ∀ k ∈ m.models, k.name ≠ "") :
    m.draft.graph.attachedBody modelFrame = .ok m.bodyName := by
  have hscope : m.scopeVertex ∈ m.draft.graph.vertices :=
    h.makes.mem_iff.mpr List.mem_cons_self
  obtain ⟨hnone, hname⟩ | ⟨hsome, hne, w, hw, hname, hbody⟩ :=
    canonicalBody_cases hlinks hmodels h.canonical
  · rw [hname]
    exact attachedBody_of_no_reference h.makes.indexed hscope
      (attachedReference_eq_none_iff.mpr (.inr (.inr ⟨rfl, hnone⟩)))
  -- otherwise one reference leads to a body, and no further
  · have hstep : m.draft.graph.attachedReference m.scopeVertex = some m.bodyName := by
      show (if m.canonicalBody.1 = "" then none else some m.canonicalBody.1) = _
      rw [hsome, if_neg hne]
    refine (attachedBody_eq_ok_iff_of_reference h.makes.indexed hscope hstep).mpr ?_
    rw [← hname]
    exact attachedBody_of_isBody h.makes.indexed (h.makes.mem_iff.mpr hw) hbody

/-- A joint is carried by its child. -/
theorem attachedBody_joint {j : Joint} (hj : j ∈ m.joints) :
    m.draft.graph.attachedBody j.name = .ok j.child := by
  obtain ⟨w, hw, hname, hbody⟩ := exists_body_of_joins (h.joints j hj)
  exact attachedBody_of_joint (v := j.vertex) h.makes.indexed
    (h.makes.mem_iff.mpr (mem_vertices_joint hj)) rfl (h.makes.mem_iff.mpr hw) hname hbody

/-- A frame that is attached to nothing moves with the model. -/
theorem attachedBody_frame_of_empty {f : Frame} (hf : f ∈ m.frames) (hempty : f.attachedTo = "")
    {body : String} : m.draft.graph.attachedBody f.name = .ok body ↔
      m.draft.graph.attachedBody modelFrame = .ok body := by
  have hstep : m.draft.graph.attachedReference f.vertex = some modelFrame := by
    show (if f.attachedTo = "" then some m.draft.graph.scopeName else some f.attachedTo) = _
    rw [if_pos hempty, h.scopeName_eq]
  exact attachedBody_eq_ok_iff_of_reference (v := f.vertex) h.makes.indexed
    (h.makes.mem_iff.mpr (mem_vertices_frame hf)) hstep

/-- Any other frame moves with what it is attached to. -/
theorem exists_attachedBody_frame {f : Frame} (hf : f ∈ m.frames) (hne : f.attachedTo ≠ "") :
    ∃ body, m.draft.graph.attachedBody f.attachedTo = .ok body ∧
      m.draft.graph.attachedBody f.name = .ok body := by
  have hvertex : f.vertex ∈ m.draft.graph.vertices := h.makes.mem_iff.mpr (mem_vertices_frame hf)
  have hattached := (List.append_eq_nil_iff.mp h.references).2
  obtain ⟨body, hbody⟩ :=
    (attachedErrors_eq_nil_iff h.makes.indexed).mp hattached f.vertex hvertex (.inl rfl)
  have hstep : m.draft.graph.attachedReference f.vertex = some f.attachedTo := if_neg hne
  exact ⟨body, (attachedBody_eq_ok_iff_of_reference h.makes.indexed hvertex hstep).mp hbody, hbody⟩

/-- What a frame moves with is a body of the model, or the frame of the model
itself. -/
theorem mem_of_attachedBody {name body : String}
    (hbody : m.draft.graph.attachedBody name = .ok body) :
    body ∈ m.links.map Link.name ∨ body ∈ m.models.map Model.name ∨ body = modelFrame := by
  obtain ⟨_, v, ⟨-, hv, hnone⟩, rfl⟩ := (attachedBody_eq_ok_iff h.makes.indexed).mp hbody
  obtain rfl | ⟨l, hl, rfl⟩ | ⟨k, hk, rfl⟩ | ⟨j, -, rfl⟩ | ⟨f, -, rfl⟩ :=
    mem_vertices_iff.mp (h.makes.mem_iff.mp hv)
  · exact .inr (.inr rfl)
  · exact .inl (List.mem_map_of_mem hl)
  · exact .inr (.inl (List.mem_map_of_mem hk))
  -- joints and explicit frames are always attached to something, so no course rests there
  · simp [attachedReference_eq_none_iff, Joint.vertex, Placement.vertex] at hnone
  · simp [attachedReference_eq_none_iff, Frame.vertex, Placement.vertex] at hnone

end Consistent

/-! ### Graphs that are built again -/

/-- **The bodies of a model are those that its children give it.**  If the graphs
of a model are built again without errors then its own frame moves with the body
of the model, as every explicit frame does that is attached to nothing.  A joint
moves with its child.  Any other frame moves with what it is attached to moves
with, and that is a link of the model, a model in it, or its own frame. -/
theorem attachedBody_of_rebuild (h : m.rebuild.2 = []) (hlinks : ∀ l ∈ m.links, l.name ≠ "")
    (hmodels : ∀ k ∈ m.models, k.name ≠ "") :
    let g := m.rebuild.1.graph
    g.attachedBody modelFrame = .ok m.bodyName ∧
    (∀ f ∈ m.frames, f.attachedTo = "" → g.attachedBody f.name = .ok m.bodyName) ∧
    (∀ j ∈ m.joints, g.attachedBody j.name = .ok j.child) ∧
    ∀ f ∈ m.frames, f.attachedTo ≠ "" → ∃ body, g.attachedBody f.attachedTo = .ok body ∧
      g.attachedBody f.name = .ok body ∧
      (body ∈ m.links.map Link.name ∨ body ∈ m.models.map Model.name ∨ body = modelFrame) := by
  intro g
  have hg : g = m.draft.graph := by
    show m.rebuild.1.graph = _
    rw [rebuild_eq]
  rw [rebuild_eq] at h
  have hconsistent := m.draft_errors_eq_nil_iff.mp (List.append_eq_nil_iff.mp h).2
  have hscope := hconsistent.attachedBody_modelFrame hlinks hmodels
  rw [hg]
  refine ⟨hscope, fun f hf hempty => ?_, fun j hj => hconsistent.attachedBody_joint hj,
    fun f hf hne => ?_⟩
  · exact (hconsistent.attachedBody_frame_of_empty hf hempty).mpr hscope
  · obtain ⟨body, hto, hbody⟩ := hconsistent.exists_attachedBody_frame hf hne
    exact ⟨body, hto, hbody, hconsistent.mem_of_attachedBody hbody⟩

/-- A crane without links: the model of its arm turns on that of its base. -/
def crane : Model :=
  { name := "crane"
    models := [{ name := "base", isStatic := true }, { name := "arm", isStatic := true }]
    joints := [{ name := "hinge", type := .revolute, parent := "base", child := "arm" }]
    frames := [{ name := "mount" }, { name := "tip", attachedTo := "hinge" }] }

/-- A crane rebuilds without errors: its base carries what is not on the arm. -/
theorem attachedBody_crane : crane.rebuild.2 = [] ∧ crane.bodyName = "base" ∧
    crane.rebuild.1.graph.attachedBody modelFrame = .ok "base" ∧
    crane.rebuild.1.graph.attachedBody "mount" = .ok "base" ∧
    crane.rebuild.1.graph.attachedBody "hinge" = .ok "arm" ∧
    crane.rebuild.1.graph.attachedBody "tip" = .ok "arm" := by
  have herrors : crane.rebuild.2 = [] := List.isEmpty_iff.mp (by decide +kernel)
  obtain ⟨hscope, hfree, hjoints, hfixed⟩ :=
    attachedBody_of_rebuild herrors (by simp [crane]) (by simp [crane])
  have hmount := hfree { name := "mount" } (by simp [crane]) rfl
  have hhinge := hjoints _ (List.mem_singleton_self _)
  -- the tip moves with the hinge, and so with the arm
  obtain ⟨body, hto, htip, -⟩ :=
    hfixed { name := "tip", attachedTo := "hinge" } (by simp [crane]) (by decide)
  obtain rfl : "arm" = body := Except.ok.inj (hhinge.symm.trans hto)
  exact ⟨herrors, rfl, hscope, hmount, hhinge, htip⟩

end Scene.Model

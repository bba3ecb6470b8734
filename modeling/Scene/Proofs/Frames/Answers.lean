/-
Graphs that answer every question.

If nothing is wrong with the references of a graph, then every frame has a pose
in the scope, and so in every other frame.  Explicit frames and that of the
scope have a body, too.  A link and a model are bodies themselves; a joint is
attached to one, for only a joint that carries a body of its model gets a
frame.
-/
import Scene.Proofs.Frames.Draft
import Scene.Proofs.Frames.Validate
import Scene.Proofs.Reading.Document

namespace Scene

variable {policy : Policy}

/-! ### Graphs -/

namespace FrameGraph

variable {g : FrameGraph Float}

/-- Every frame of the graph has a pose in every other one, and a body. -/
structure Answers (g : FrameGraph Float) : Prop where
  resolvePose : ∀ a b, g.contains a = true → g.contains b = true →
    ∃ p, g.resolvePose a b = .ok p
  attachedBody : ∀ a, g.contains a = true → ∃ body, g.attachedBody a = .ok body

/-- A frame that is a body itself. -/
def IsBody (v : Vertex Float) : Prop := v.kind = .link ∨ v.kind = .model

/-- Where both have a value, their combination has one. -/
theorem combine_ok {α β γ : Type} (f : α → β → γ) {x : Except Errors α} {y : Except Errors β}
    (hx : ∃ a, x = .ok a) (hy : ∃ b, y = .ok b) : ∃ c, combine f x y = .ok c := by
  obtain ⟨a, rfl⟩ := hx
  obtain ⟨b, rfl⟩ := hy
  exact ⟨f a b, rfl⟩

/-- In a graph without lost or circular placements every frame has a pose. -/
theorem exists_poseInScope (hg : g.Indexed) (h : g.relativeErrors = []) {name : String}
    (hname : g.contains name = true) : ∃ p, g.poseInScope name = .ok p := by
  obtain ⟨v, hv⟩ := hg.contains_iff.mp hname
  obtain ⟨hmem, rfl⟩ := hg.vertex?_eq_some_iff.mp hv
  exact (relativeErrors_eq_nil_iff hg).mp h v hmem

/-- The scope itself is one of the frames. -/
theorem contains_scopeName (hg : g.Indexed) : g.contains g.scopeName = true := by
  obtain ⟨v, hv, -⟩ := hg.vertex?_scopeName
  exact hg.contains_iff.mpr ⟨v, hv⟩

/-- The scope frame stands in for an empty name. -/
theorem contains_orScope (hg : g.Indexed) {name : String}
    (h : name = "" ∨ g.contains name = true) : g.contains (g.orScope name) = true := by
  unfold orScope
  split
  · exact contains_scopeName hg
  · next hne => exact h.resolve_left hne

/-- So it has a pose in every other frame of the graph. -/
theorem exists_resolvePose (hg : g.Indexed) (h : g.relativeErrors = []) {a b : String}
    (ha : g.contains a = true) (hb : b = "" ∨ g.contains b = true) :
    ∃ p, g.resolvePose a b = .ok p :=
  combine_ok _ (exists_poseInScope hg h ha) (exists_poseInScope hg h (contains_orScope hg hb))

/-- A body is carried by itself. -/
theorem attachedBody_of_isBody (hg : g.Indexed) {v : Vertex Float} (hv : v ∈ g.vertices)
    (hbody : IsBody v) : g.attachedBody v.name = .ok v.name :=
  attachedBody_of_no_reference hg hv (attachedReference_eq_none_iff.mpr (hbody.imp_right .inl))

/-- A joint moves with its child, if that is a body. -/
theorem attachedBody_of_joint (hg : g.Indexed) {v w : Vertex Float} (hv : v ∈ g.vertices)
    (hkind : v.kind = .joint) (hw : w ∈ g.vertices) (hname : w.name = v.attachedTo)
    (hbody : IsBody w) : g.attachedBody v.name = .ok v.attachedTo := by
  have hstep : g.attachedReference v = some w.name := by
    rw [attachedReference, hkind, hname]
  rw [← hname]
  exact (attachedBody_eq_ok_iff_of_reference hg hv hstep).mpr (attachedBody_of_isBody hg hw hbody)

/-- Without errors a graph answers, if its joints are attached to bodies. -/
theorem answers_of_validate (hg : g.Indexed) (h : g.validate = [])
    (hjoints : ∀ v ∈ g.vertices, v.kind = .joint →
      ∃ w ∈ g.vertices, w.name = v.attachedTo ∧ IsBody w) : g.Answers := by
  obtain ⟨hrelative, hattached⟩ := List.append_eq_nil_iff.mp h
  refine ⟨fun a b ha hb => exists_resolvePose hg hrelative ha (.inr hb), ?_⟩
  intro a ha
  obtain ⟨v, hv⟩ := hg.contains_iff.mp ha
  obtain ⟨hmem, rfl⟩ := hg.vertex?_eq_some_iff.mp hv
  -- validation starts from explicit frames and from the scope; the others are left to their kind
  cases hkind : v.kind with
  | scope => exact (attachedErrors_eq_nil_iff hg).mp hattached v hmem (.inr hkind)
  | frame => exact (attachedErrors_eq_nil_iff hg).mp hattached v hmem (.inl hkind)
  | link => exact ⟨_, attachedBody_of_isBody hg hmem (.inl hkind)⟩
  | model => exact ⟨_, attachedBody_of_isBody hg hmem (.inr hkind)⟩
  | joint =>
    obtain ⟨w, hw, hname, hbody⟩ := hjoints v hmem hkind
    exact ⟨_, attachedBody_of_joint hg hmem hkind hw hname hbody⟩

/-- An object in a frame of the graph has a pose in another one. -/
theorem exists_resolve_ofChild (hg : g.Indexed) (h : g.relativeErrors = []) (p : Placement)
    {parent : String} (hparent : g.contains parent = true)
    (hp : p.relativeTo = "" ∨ g.contains p.relativeTo = true) :
    ∃ q, (p.ofChild parent).resolve g = .ok q := by
  have hbase : g.contains ((p.ofChild parent).base g) = true := by
    refine contains_orScope hg (.inr ?_)
    unfold Placement.ofChild SemanticPose.ofChild
    dsimp only
    split
    · exact hparent
    · next hne => exact hp.resolve_left hne
  -- both the base of the object and its parent have poses in the scope
  refine combine_ok _ ?_ (exists_poseInScope hg h (contains_orScope hg (.inr hparent)))
  obtain ⟨outer, houter⟩ := exists_poseInScope hg h hbase
  refine ⟨outer.compose p.pose, ?_⟩
  show (g.poseInScope ((p.ofChild parent).base g)).map _ = _
  rw [houter]
  rfl

end FrameGraph

/-! ### Models -/

/-- Whether the frame that a place is expressed in is none or one of the
graph. -/
def Placement.IsIn (p : Placement) (g : FrameGraph Float) : Prop :=
  p.relativeTo = "" ∨ g.contains p.relativeTo = true

namespace Model

variable {m : Model}

/-- Everything in a model can be found and has a pose. -/
structure Resolves (m : Model) : Prop where
  answers : m.graph.Answers
  links : ∀ l ∈ m.links, m.graph.vertex? l.name = some l.vertex
  joints : ∀ j ∈ m.joints, m.graph.vertex? j.name = some j.vertex
  models : ∀ k ∈ m.models, m.graph.vertex? k.name = some k.vertex
  frames : ∀ f ∈ m.frames, m.graph.vertex? f.name = some f.vertex
  axes : ∀ j ∈ m.joints, ∀ a, j.axis = some a → ∃ xyz, a.resolveXyz m.graph "" = .ok xyz
  collisions : ∀ l ∈ m.links, ∀ c ∈ l.collisions, c.placement.IsIn m.graph →
    ∃ p, c.semanticPose.resolve m.graph = .ok p
  visuals : ∀ l ∈ m.links, ∀ v ∈ l.visuals, v.placement.IsIn m.graph →
    ∃ p, v.semanticPose.resolve m.graph = .ok p
  lights : ∀ l ∈ m.links, ∀ x ∈ l.lights, x.placement.IsIn m.graph →
    ∃ p, x.semanticPose.resolve m.graph = .ok p

/-- The frames of a model, by what they stand for. -/
theorem mem_vertices_iff {v : Vertex Float} : v ∈ m.vertices ↔ v = m.scopeVertex ∨
    (∃ l ∈ m.links, l.vertex = v) ∨ (∃ k ∈ m.models, k.vertex = v) ∨
    (∃ j ∈ m.joints, j.vertex = v) ∨ ∃ f ∈ m.frames, f.vertex = v := by
  simp only [vertices, childVertices, List.mem_cons, List.mem_append, List.mem_map, or_assoc]

theorem mem_vertices_link {l : Link} (hl : l ∈ m.links) : l.vertex ∈ m.vertices :=
  mem_vertices_iff.mpr (.inr (.inl ⟨l, hl, rfl⟩))

theorem mem_vertices_model {k : Model} (hk : k ∈ m.models) : k.vertex ∈ m.vertices :=
  mem_vertices_iff.mpr (.inr (.inr (.inl ⟨k, hk, rfl⟩)))

theorem mem_vertices_joint {j : Joint} (hj : j ∈ m.joints) : j.vertex ∈ m.vertices :=
  mem_vertices_iff.mpr (.inr (.inr (.inr (.inl ⟨j, hj, rfl⟩))))

theorem mem_vertices_frame {f : Frame} (hf : f ∈ m.frames) : f.vertex ∈ m.vertices :=
  mem_vertices_iff.mpr (.inr (.inr (.inr (.inr ⟨f, hf, rfl⟩))))

/-- The child of a joint is a body of the model. -/
theorem exists_body_of_joins {j : Joint} (h : m.Joins j) :
    ∃ w ∈ m.vertices, w.name = j.child ∧ FrameGraph.IsBody w := by
  have hbody := h.1
  simp only [carriesBody, Bool.and_eq_true, Bool.or_eq_true] at hbody
  -- the child was looked up among the links and among the nested models
  rcases hbody.2 with hlink | hmodel
  · obtain ⟨l, hl, hname⟩ := List.mem_map.mp (nameExists_iff.mp hlink)
    exact ⟨l.vertex, mem_vertices_link hl, hname, .inl rfl⟩
  · obtain ⟨k, hk, hname⟩ := List.mem_map.mp (nameExists_iff.mp hmodel)
    exact ⟨k.vertex, mem_vertices_model hk, hname, .inr rfl⟩

/-- Among the frames of a model, those of its joints are of the kind of a
joint. -/
theorem exists_joint_of_kind {v : Vertex Float} (hv : v ∈ m.vertices) (hkind : v.kind = .joint) :
    ∃ j ∈ m.joints, v = j.vertex := by
  obtain rfl | ⟨l, -, rfl⟩ | ⟨k, -, rfl⟩ | ⟨j, hj, rfl⟩ | ⟨f, -, rfl⟩ := mem_vertices_iff.mp hv
  · cases hkind
  · cases hkind
  · cases hkind
  · exact ⟨j, hj, rfl⟩
  · cases hkind

/-- The frame that a joint gives its axis in, if it names one, exists. -/
theorem contains_expressedIn {g : FrameGraph Float} {j : Joint} (h : jointErrors g j = [])
    (hne : j.expressedIn ≠ "") : g.contains j.expressedIn = true := by
  have hsecond := (List.append_eq_nil_iff.mp h).2
  simpa [hne] using hsecond

/-! ### Checked models -/

section

variable (h : m.Checked policy)

include h

/-- A checked model is consistent. -/
theorem Checked.consistent : m.Consistent := m.draft_errors_eq_nil_iff.mp h.errors

theorem Checked.makes : m.draft.Makes m.vertices := h.consistent.makes

/-- The index of its graph finds each frame. -/
theorem Checked.indexed : m.graph.Indexed := h.graph ▸ h.makes.indexed

/-- Its graph has exactly the frames of the model. -/
theorem Checked.mem_iff {v : Vertex Float} : v ∈ m.graph.vertices ↔ v ∈ m.vertices := by
  rw [h.graph, h.makes.mem_iff]

/-- Its graph has no errors. -/
theorem Checked.validate : m.graph.validate = [] := h.graph ▸ h.consistent.references

theorem Checked.relative : m.graph.relativeErrors = [] :=
  (List.append_eq_nil_iff.mp h.validate).1

/-- Each frame of the model is found under its name. -/
theorem Checked.vertex?_eq {v : Vertex Float} (hv : v ∈ m.vertices) :
    m.graph.vertex? v.name = some v :=
  h.indexed.vertex?_name (h.mem_iff.mpr hv)

/-- Every frame of a checked model is found in its graph. -/
theorem Checked.contains {v : Vertex Float} (hv : v ∈ m.vertices) :
    m.graph.contains v.name = true :=
  h.indexed.contains_iff.mpr ⟨v, h.vertex?_eq hv⟩

/-- Its graph answers every question about its frames. -/
theorem Checked.answers : m.graph.Answers := by
  apply FrameGraph.answers_of_validate h.indexed h.validate
  intro v hv hkind
  obtain ⟨j, hj, rfl⟩ := exists_joint_of_kind (h.mem_iff.mp hv) hkind
  obtain ⟨w, hw, hname, hbody⟩ := exists_body_of_joins (h.consistent.joints j hj)
  exact ⟨w, h.mem_iff.mpr hw, hname, hbody⟩

/-- The direction of an axis is expressed in its joint or in a frame that was
looked up, so it can be brought into the joint. -/
theorem Checked.exists_resolveXyz {j : Joint} (hj : j ∈ m.joints) {a : Axis Float}
    (ha : j.axis = some a) : ∃ xyz, a.resolveXyz m.graph "" = .ok xyz := by
  have hvalid := h.joints j hj
  have howner := hvalid.owner_axis ha
  have hname := hvalid.name.1
  have hself : m.graph.contains j.name = true := h.contains (mem_vertices_joint hj)
  -- the frame that the axis is given in: its joint, or one that was looked up for it
  have hbase : m.graph.contains (if a.expressedIn = "" then a.owner else a.expressedIn) = true ∧
      (if a.expressedIn = "" then a.owner else a.expressedIn) ≠ "" := by
    split
    · rw [howner]
      exact ⟨hself, hname⟩
    · next hne =>
      have hexp : j.expressedIn = a.expressedIn := by simp [Joint.expressedIn, ha]
      have hnamed := h.consistent.named j hj
      rw [← h.graph] at hnamed
      exact ⟨hexp ▸ contains_expressedIn hnamed (by rwa [hexp]), hne⟩
  obtain ⟨p, hp⟩ :=
    FrameGraph.exists_resolvePose h.indexed h.relative hbase.1 (.inr (howner ▸ hself))
  refine ⟨p.rotation.apply a.xyz, ?_⟩
  simp only [Axis.resolveXyz, if_true, hbase.2, howner ▸ hname, or_self, if_false, hp]
  rfl

/-- What a link holds has a pose if it is expressed in a frame of the model. -/
theorem Checked.exists_resolve {l : Link} (hl : l ∈ m.links) {owner : String}
    (howner : owner = l.name) {p : Placement} (hplace : p.IsIn m.graph) :
    ∃ q, (p.ofChild owner).resolve m.graph = .ok q := by
  subst howner
  exact FrameGraph.exists_resolve_ofChild h.indexed h.relative p
    (h.contains (mem_vertices_link hl)) hplace

/-- **A model whose graph is consistent and whose children know their names
resolves.** -/
theorem resolves_of_checked : m.Resolves where
  answers := h.answers
  links := by
    intro l hl
    exact h.vertex?_eq (mem_vertices_link hl)
  joints := by
    intro j hj
    exact h.vertex?_eq (mem_vertices_joint hj)
  models := by
    intro k hk
    exact h.vertex?_eq (mem_vertices_model hk)
  frames := by
    intro f hf
    exact h.vertex?_eq (mem_vertices_frame hf)
  axes := by
    intro j hj a ha
    exact h.exists_resolveXyz hj ha
  collisions := by
    intro l hl c hc
    exact h.exists_resolve hl ((h.links l hl).owner_collision hc)
  visuals := by
    intro l hl v hv
    exact h.exists_resolve hl ((h.links l hl).owner_visual hv)
  lights := by
    intro l hl x hx
    exact h.exists_resolve hl ((h.links l hl).owner_light hx)

end

end Model

/-! ### Worlds -/

namespace World

variable {w : World}

/-- Everything in a world can be found and has a pose. -/
structure Resolves (w : World) : Prop where
  answers : w.graph.Answers
  models : ∀ m ∈ w.models, w.graph.vertex? m.name = some m.vertex
  frames : ∀ f ∈ w.frames, w.graph.vertex? f.name = some f.vertex

/-- There are no joints right in a world. -/
theorem kind_ne_joint {v : Vertex Float} (hv : v ∈ w.vertices) : v.kind ≠ .joint := by
  simp only [vertices, List.mem_cons, List.mem_append, List.mem_map] at hv
  rcases hv with rfl | ⟨m, -, rfl⟩ | ⟨f, -, rfl⟩
  · exact VertexKind.noConfusion
  · exact VertexKind.noConfusion
  · exact VertexKind.noConfusion

/-- All that is in a valid world can be resolved, with its models at every
depth. -/
theorem resolves_of_valid (h : w.Valid policy) : w.Resolves := by
  obtain ⟨hdistinct, hvalidate⟩ := w.draft_errors_eq_nil_iff.mp h.errors
  have hmakes := makes_draft hdistinct
  rw [← h.graph] at hvalidate
  have hg : w.graph.Indexed := h.graph ▸ hmakes.indexed
  have hmem {v : Vertex Float} : v ∈ w.graph.vertices ↔ v ∈ w.vertices := by
    rw [h.graph, hmakes.mem_iff]
  refine ⟨FrameGraph.answers_of_validate hg hvalidate fun v hv hkind =>
    absurd hkind (kind_ne_joint (hmem.mp hv)), fun m hm => ?_, fun f hf => ?_⟩
  · refine hg.vertex?_name (v := m.vertex) (hmem.mpr (List.mem_cons_of_mem _ ?_))
    exact List.mem_append_left _ (List.mem_map_of_mem hm)
  · refine hg.vertex?_name (v := f.vertex) (hmem.mpr (List.mem_cons_of_mem _ ?_))
    exact List.mem_append_right _ (List.mem_map_of_mem hf)

end World

end Scene

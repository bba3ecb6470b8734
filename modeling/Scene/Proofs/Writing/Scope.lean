/-
Scopes of objects that are equal.

The graph of a model is not written but built again from what was read back.
Equal objects have equal frames, so the graphs are equal, too, and nothing is
wrong with the one if nothing is wrong with the other: names, bodies of joints
and references do not depend on poses, the only thing in which equal objects
may differ.
-/
import Scene.Proofs.Frames.Alike
import Scene.Proofs.Frames.Draft
import Scene.Proofs.Writing.Joint

namespace Scene

/-! ### Equality -/

/-- Frames are compared field by field. -/
theorem Frame.beq_iff {f g : Frame} : (f == g) = true ↔
    f.name = g.name ∧ f.attachedTo = g.attachedTo ∧ (f.placement == g.placement) = true := by
  obtain ⟨⟩ := f
  obtain ⟨⟩ := g
  show instBEqFrame.beq _ _ = true ↔ _
  simp [instBEqFrame.beq]

namespace Model

/-- Models side by side are compared one by one. -/
theorem beqAll_eq (ms ks : List Model) : beqAll ms ks = (ms == ks) := by
  induction ms generalizing ks with
  | nil => cases ks <;> rfl
  | cons m ms ih =>
    cases ks with
    | nil => rfl
    | cons k ks =>
      rw [beqAll, ih]
      rfl

/-- Models are compared field by field, with their graphs. -/
theorem beq_iff {m k : Model} : (m == k) = true ↔
    m.name = k.name ∧ (m.placement == k.placement) = true ∧ m.isStatic = k.isStatic ∧
      m.selfCollide = k.selfCollide ∧ m.canonicalLink = k.canonicalLink ∧
      (m.links == k.links) = true ∧ (m.joints == k.joints) = true ∧ (m.frames == k.frames) = true ∧
      (m.models == k.models) = true ∧ (m.graph == k.graph) = true ∧
      (m.unknown == k.unknown) = true := by
  obtain ⟨⟩ := m
  obtain ⟨⟩ := k
  show beq _ _ = true ↔ _
  simp only [beq, beqAll_eq, Bool.and_eq_true, beq_iff_eq, and_assoc]

end Model

/-! ### Frames of equal objects -/

/-- Equal places make equal frames of one name. -/
theorem Placement.beq_vertex {p q : Placement} (h : (p == q) = true) (name : String)
    (kind : VertexKind) (base attachedTo : String) :
    (p.vertex name kind base attachedTo == q.vertex name kind base attachedTo) = true := by
  obtain ⟨hpose, hrelative⟩ := Placement.beq_iff.mp h
  refine Vertex.beq_iff.mpr ⟨⟨rfl, rfl, ?_, rfl⟩, hpose⟩
  show (if p.relativeTo = "" then base else p.relativeTo) = _
  rw [hrelative]
  rfl

/-- Equal links stand as equal frames. -/
theorem Link.beq_vertex {l k : Link} (h : (l == k) = true) : (l.vertex == k.vertex) = true := by
  obtain ⟨hname, hplacement, -⟩ := Link.beq_iff.mp h
  rw [Link.vertex, Link.vertex, hname]
  exact Placement.beq_vertex hplacement _ _ _ _

/-- Equal joints stand as equal frames. -/
theorem Joint.beq_vertex {j k : Joint} (h : (j == k) = true) : (j.vertex == k.vertex) = true := by
  obtain ⟨hname, -, -, hchild, hplacement, -⟩ := Joint.beq_iff.mp h
  rw [Joint.vertex, Joint.vertex, hname, hchild]
  exact Placement.beq_vertex hplacement _ _ _ _

/-- Equal frames of a document stand as equal frames of the graph. -/
theorem Frame.beq_vertex {f g : Frame} (h : (f == g) = true) : (f.vertex == g.vertex) = true := by
  obtain ⟨hname, hattached, hplacement⟩ := Frame.beq_iff.mp h
  rw [Frame.vertex, Frame.vertex, hname, hattached]
  exact Placement.beq_vertex hplacement _ _ _ _

/-- Equal models stand as equal frames. -/
theorem Model.beq_vertex {m k : Model} (h : (m == k) = true) : (m.vertex == k.vertex) = true := by
  obtain ⟨hname, hplacement, -⟩ := Model.beq_iff.mp h
  rw [Model.vertex, Model.vertex, hname]
  exact Placement.beq_vertex hplacement _ _ _ _

/-- Rows of frames are made of rows of objects. -/
theorem beq_map_vertex {α : Type} [BEq α] {vertex : α → Vertex Float}
    (hvertex : ∀ x y : α, (x == y) = true → (vertex x == vertex y) = true) {xs ys : List α}
    (h : (xs == ys) = true) :
    List.Forall₂ (fun v w => (v == w) = true) (xs.map vertex) (ys.map vertex) := by
  rw [List.forall₂_map_left_iff, List.forall₂_map_right_iff]
  exact (beq_list_iff.mp h).imp hvertex

/-- Equal rows have the same names. -/
theorem map_name_eq {α : Type} [BEq α] {name : α → String}
    (hname : ∀ x y : α, (x == y) = true → name x = name y) {xs ys : List α}
    (h : (xs == ys) = true) : xs.map name = ys.map name :=
  map_eq_of_forall₂ hname (beq_list_iff.mp h)

/-- Graphs of frames that are equal one by one are equal. -/
theorem Draft.Makes.beq_graph {d d' : Draft} {vs ws : List (Vertex Float)} (h : d.Makes vs)
    (h' : d'.Makes ws) (heq : List.Forall₂ (fun v w => (v == w) = true) vs ws) :
    (d.graph == d'.graph) = true := by
  rw [FrameGraph.beq_iff, h.vertices, h'.vertices]
  exact beq_list_iff.mpr heq

/-- Nothing is wrong with the references of an equal graph. -/
theorem Draft.Makes.validate_eq_nil {d d' : Draft} {vs ws : List (Vertex Float)} (h : d.Makes vs)
    (h' : d'.Makes ws) (heq : (d.graph == d'.graph) = true) (hvalidate : d.graph.validate = []) :
    d'.graph.validate = [] :=
  (FrameGraph.alike_of_beq heq).validate_eq_nil h.indexed h'.indexed hvalidate

/-- The names of frames that are equal one by one. -/
theorem map_vertexName_eq {vs ws : List (Vertex Float)}
    (h : List.Forall₂ (fun v w => (v == w) = true) vs ws) :
    vs.map Vertex.name = ws.map Vertex.name := by
  refine map_eq_of_forall₂ (fun v w hvw => ?_) h
  exact (Vertex.beq_iff.mp hvw).1.name

/-! ### Models -/

namespace Model

/-- Models that hold equal objects, whatever their graphs are. -/
structure Agrees (m k : Model) : Prop where
  name : m.name = k.name
  canonicalLink : m.canonicalLink = k.canonicalLink
  links : (m.links == k.links) = true
  joints : (m.joints == k.joints) = true
  frames : (m.frames == k.frames) = true
  models : (m.models == k.models) = true

variable {m k : Model}

theorem Agrees.map_name_links (h : m.Agrees k) : m.links.map Link.name = k.links.map Link.name :=
  map_name_eq (fun _ _ hlk => (Link.beq_iff.mp hlk).1) h.links

theorem Agrees.map_name_models (h : m.Agrees k) :
    m.models.map Model.name = k.models.map Model.name :=
  map_name_eq (fun _ _ hmk => (Model.beq_iff.mp hmk).1) h.models

/-- The canonical body is chosen by names. -/
theorem canonicalBody_eq (m : Model) : m.canonicalBody =
    match if m.canonicalLink = "" then (m.links.map Link.name).head?
      else (m.links.map Link.name).find? fun name => name == m.canonicalLink with
    | some name => (name, [])
    | none =>
      if m.canonicalLink = "" then ((m.models.map Model.name).head?.getD "", [])
      else ("", [.canonicalLinkInvalid m.canonicalLink m.name]) := by
  -- to choose a link and take its name is to choose among the names
  have hlink : (if m.canonicalLink = "" then (m.links.map Link.name).head?
      else (m.links.map Link.name).find? fun name => name == m.canonicalLink) =
        m.canonicalLink?.map Link.name := by
    unfold canonicalLink?
    split
    · exact List.head?_map
    · exact List.find?_map
  rw [hlink, canonicalBody]
  cases m.canonicalLink? with
  | some l => rfl
  | none => rw [List.head?_map]; rfl

/-- Models that agree have the same canonical body, or the same errors about it. -/
theorem Agrees.canonicalBody_eq (h : m.Agrees k) : m.canonicalBody = k.canonicalBody := by
  rw [Model.canonicalBody_eq, Model.canonicalBody_eq, h.map_name_links, h.map_name_models,
    h.canonicalLink, h.name]

/-- In models that agree, joints of one child carry a body or neither does. -/
theorem Agrees.carriesBody_iff (h : m.Agrees k) {i j : Joint} (hij : i.child = j.child) :
    m.carriesBody i = true ↔ k.carriesBody j = true := by
  have hlinks : nameExists m.links j.child = true ↔ nameExists k.links j.child = true := by
    rw [nameExists_iff, nameExists_iff]
    exact iff_of_eq (congrArg _ h.map_name_links)
  have hmodels : nameExists m.models j.child = true ↔ nameExists k.models j.child = true := by
    rw [nameExists_iff, nameExists_iff]
    exact iff_of_eq (congrArg _ h.map_name_models)
  simp only [carriesBody, Bool.and_eq_true, Bool.or_eq_true, hij, hlinks, hmodels]

/-- Equal joints give their axes in one frame. -/
theorem expressedIn_eq {i j : Joint} (h : (i == j) = true) : i.expressedIn = j.expressedIn := by
  have haxis := (Joint.beq_iff.mp h).2.2.2.2.2
  unfold Joint.expressedIn
  generalize i.axis = o at haxis ⊢
  generalize j.axis = o' at haxis ⊢
  -- both joints have an axis or neither has
  match o, o', haxis with
  | none, none, _ => rfl
  | some a, some b, haxis =>
    obtain ⟨⟩ := a
    obtain ⟨⟩ := b
    rw [Option.some_beq_some] at haxis
    change instBEqAxis.beq _ _ = true at haxis
    simp only [instBEqAxis.beq, Bool.and_eq_true, beq_iff_eq] at haxis
    exact haxis.2.1

/-- What a joint names is looked up by name. -/
theorem jointErrors_eq {g g' : FrameGraph Float} (hg : ∀ name, g.contains name = g'.contains name)
    {i j : Joint} (h : (i == j) = true) : jointErrors g i = jointErrors g' j := by
  obtain ⟨hname, -, hparent, hchild, -⟩ := Joint.beq_iff.mp h
  simp only [jointErrors, hg, hname, hparent, hchild, expressedIn_eq h]

/-- Models that agree have equal frames, place by place. -/
theorem Agrees.forall₂_vertices (h : m.Agrees k) :
    List.Forall₂ (fun v w => (v == w) = true) m.vertices k.vertices := by
  have hscope : (m.scopeVertex == k.scopeVertex) = true := by
    refine Vertex.beq_iff.mpr ⟨⟨rfl, rfl, rfl, ?_⟩, ?_⟩
    · exact congrArg Prod.fst h.canonicalBody_eq
    · show ((Pose.identity : Pose Float) == .identity) = true
      decide +kernel
  refine .cons hscope (List.rel_append (List.rel_append (List.rel_append ?_ ?_) ?_) ?_)
  · exact beq_map_vertex (fun _ _ => Link.beq_vertex) h.links
  · exact beq_map_vertex (fun _ _ => Model.beq_vertex) h.models
  · exact beq_map_vertex (fun _ _ => Joint.beq_vertex) h.joints
  · exact beq_map_vertex (fun _ _ => Frame.beq_vertex) h.frames

/-- **Models that agree have equal graphs**, and nothing is wrong with the one
if nothing is wrong with the other. -/
theorem Agrees.consistent (h : m.Agrees k) (hm : m.Consistent) :
    k.Consistent ∧ (m.draft.graph == k.draft.graph) = true := by
  have hvertices := h.forall₂_vertices
  have hnames := map_vertexName_eq hvertices
  -- to each joint of the one an equal joint of the other
  have hjoint {j : Joint} (hj : j ∈ k.joints) : ∃ i ∈ m.joints, (i == j) = true :=
    exists_of_forall₂ (beq_list_iff.mp h.joints).flip hj
  have hdistinct : (k.vertices.map Vertex.name).Nodup := hnames ▸ hm.distinct
  have hjoints : ∀ j ∈ k.joints, k.Joins j := by
    intro j hj
    obtain ⟨i, hi, hij⟩ := hjoint hj
    obtain ⟨-, -, hparent, hchild, -⟩ := Joint.beq_iff.mp hij
    obtain ⟨hbody, hdiffer⟩ := hm.joints i hi
    exact ⟨(h.carriesBody_iff hchild).mp hbody, hparent ▸ hchild ▸ hdiffer⟩
  have hmakes := hm.makes
  have hmakes' := makes_draft hdistinct hjoints
  have hgraph := hmakes.beq_graph hmakes' hvertices
  refine ⟨⟨h.canonicalBody_eq ▸ hm.canonical, hdistinct, hjoints, ?_,
    hmakes.validate_eq_nil hmakes' hgraph hm.references⟩, hgraph⟩
  intro j hj
  obtain ⟨i, hi, hij⟩ := hjoint hj
  -- a graph knows the names of its frames, which are the same in both
  have hcontains (name : String) : m.draft.graph.contains name = k.draft.graph.contains name := by
    rw [Bool.eq_iff_iff, hmakes.contains_iff, hmakes'.contains_iff, hnames]
  rw [← jointErrors_eq hcontains hij]
  exact hm.named i hi

end Model

/-! ### Worlds -/

namespace World

/-- **Worlds that hold equal models and frames have equal graphs**, and nothing
is wrong with the one if nothing is wrong with the other. -/
theorem draft_of_beq {w u : World} (hmodels : (w.models == u.models) = true)
    (hframes : (w.frames == u.frames) = true) (herrors : w.draft.errors = []) :
    u.draft.errors = [] ∧ (w.draft.graph == u.draft.graph) = true := by
  have hscope : (scopeVertex == scopeVertex) = true := by decide +kernel
  have hvertices : List.Forall₂ (fun v v' => (v == v') = true) w.vertices u.vertices :=
    .cons hscope (List.rel_append (beq_map_vertex (fun _ _ => Model.beq_vertex) hmodels)
      (beq_map_vertex (fun _ _ => Frame.beq_vertex) hframes))
  obtain ⟨hdistinct, hvalidate⟩ := w.draft_errors_eq_nil_iff.mp herrors
  have hdistinct' : (u.vertices.map Vertex.name).Nodup := map_vertexName_eq hvertices ▸ hdistinct
  have hmakes := makes_draft hdistinct
  have hmakes' := makes_draft hdistinct'
  have hgraph := hmakes.beq_graph hmakes' hvertices
  exact ⟨u.draft_errors_eq_nil_iff.mpr
    ⟨hdistinct', hmakes.validate_eq_nil hmakes' hgraph hvalidate⟩, hgraph⟩

end World

end Scene

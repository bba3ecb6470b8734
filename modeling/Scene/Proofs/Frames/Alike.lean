/-
Graphs that differ in poses only.

What is wrong with the references of a graph does not depend on the poses in it:
the same names are followed by the same ones, so courses through graphs that
differ in poses only go through frames of the same names.  Equal graphs in the
sense of `==` are alike, since that compares poses by their values.
-/
import Scene.Proofs.Frames.Validate
import Scene.Proofs.Rows

namespace Scene

variable {R : Type}

/-! ### Frames -/

/-- Frames that differ in their poses at most. -/
structure Vertex.Alike (v w : Vertex R) : Prop where
  name : v.name = w.name
  kind : v.kind = w.kind
  relativeTo : v.relativeTo = w.relativeTo
  attachedTo : v.attachedTo = w.attachedTo

/-- Likeness of frames goes both ways. -/
theorem Vertex.Alike.symm {v w : Vertex R} (h : v.Alike w) : w.Alike v :=
  ⟨h.name.symm, h.kind.symm, h.relativeTo.symm, h.attachedTo.symm⟩

/-- Equal frames are alike and have equal poses, as far as poses can be
compared. -/
theorem Vertex.beq_iff [BEq R] [Neg R] {v w : Vertex R} :
    (v == w) = true ↔ v.Alike w ∧ (v.pose == w.pose) = true := by
  show (v.name == w.name && v.kind == w.kind && v.pose == w.pose
    && v.relativeTo == w.relativeTo && v.attachedTo == w.attachedTo) = true ↔ _
  simp only [Bool.and_eq_true, beq_iff_eq]
  constructor
  · rintro ⟨⟨⟨⟨hname, hkind⟩, hpose⟩, hrelative⟩, hattached⟩
    exact ⟨⟨hname, hkind, hrelative, hattached⟩, hpose⟩
  · rintro ⟨⟨hname, hkind, hrelative, hattached⟩, hpose⟩
    exact ⟨⟨⟨⟨hname, hkind⟩, hpose⟩, hrelative⟩, hattached⟩

namespace FrameGraph

/-! ### Graphs -/

/-- Graphs whose frames differ in their poses at most. -/
def Alike (g h : FrameGraph R) : Prop :=
  List.Forall₂ Vertex.Alike g.vertices.toList h.vertices.toList

/-- Graphs are compared by their frames alone, and not by the index. -/
theorem beq_iff [BEq R] [Neg R] {g h : FrameGraph R} :
    (g == h) = true ↔ (g.vertices.toList == h.vertices.toList) = true := by
  rw [Array.beq_toList]
  rfl

/-- Graphs that compare as equal have frames that are alike, place by place. -/
theorem alike_of_beq [BEq R] [Neg R] {g h : FrameGraph R} (heq : (g == h) = true) : g.Alike h :=
  (beq_list_iff.mp (beq_iff.mp heq)).imp fun _ _ hvw => (Vertex.beq_iff.mp hvw).1

variable {g h : FrameGraph R}

/-- Likeness of graphs goes both ways. -/
theorem Alike.symm (hgh : g.Alike h) : h.Alike g :=
  List.Forall₂.flip (List.Forall₂.imp (fun _ _ hvw => hvw.symm) hgh)

/-- Each frame has a frame like it in the other graph. -/
theorem Alike.exists_vertex (hgh : g.Alike h) {v : Vertex R} (hv : v ∈ g.vertices) :
    ∃ w ∈ h.vertices, v.Alike w := by
  obtain ⟨w, hw, hvw⟩ := exists_of_forall₂ hgh (Array.mem_toList_iff.mpr hv)
  exact ⟨w, Array.mem_toList_iff.mp hw, hvw⟩

/-- Scopes of graphs that are alike have one name. -/
theorem Alike.scopeName_eq (hgh : g.Alike h) : g.scopeName = h.scopeName := by
  have hnames := map_eq_of_forall₂ (fun _ _ hvw => hvw.name) hgh
  have hhead := congrArg (fun names => names[0]?) hnames
  simp only [List.getElem?_map, Array.getElem?_toList] at hhead
  rw [scopeName, scopeName, hhead]

/-- Frames that are alike are placed relative to frames of one name. -/
theorem Alike.relativeReference_eq (hgh : g.Alike h) {v w : Vertex R} (hvw : v.Alike w) :
    g.relativeReference v = h.relativeReference w := by
  rw [relativeReference, relativeReference, hvw.kind, hvw.relativeTo, hgh.scopeName_eq]

/-- Frames that are alike are attached to frames of one name. -/
theorem Alike.attachedReference_eq (hgh : g.Alike h) {v w : Vertex R} (hvw : v.Alike w) :
    g.attachedReference v = h.attachedReference w := by
  rw [attachedReference, attachedReference, hvw.kind, hvw.attachedTo, hgh.scopeName_eq]

/-! ### Courses -/

variable {reference reference' : Vertex R → Option String}

/-- What can be followed in one graph can be followed in the other one. -/
theorem Alike.follow_of_follow (hgh : g.Alike h) (hg : g.Indexed) (hh : h.Indexed)
    (href : ∀ v w : Vertex R, v.Alike w → reference v = reference' w) {name next : String}
    (hnext : g.follow reference name = some next) : h.follow reference' name = some next := by
  obtain ⟨v, hv, rfl, hv'⟩ := (follow_eq_some_iff hg).mp hnext
  obtain ⟨w, hw, hvw⟩ := hgh.exists_vertex hv
  exact (follow_eq_some_iff hh).mpr ⟨w, hw, hvw.name.symm, href v w hvw ▸ hv'⟩

/-- A row of frames has a row of the same names in the other graph. -/
theorem Alike.exists_vertices (hgh : g.Alike h) {vs : List (Vertex R)}
    (hvs : ∀ v ∈ vs, v ∈ g.vertices) :
    ∃ ws : List (Vertex R), ws.map Vertex.name = vs.map Vertex.name ∧
      ∀ w ∈ ws, w ∈ h.vertices := by
  induction vs with
  | nil => exact ⟨[], rfl, by simp⟩
  | cons v vs ih =>
    obtain ⟨hv, hvs⟩ := List.forall_mem_cons.mp hvs
    obtain ⟨w, hw, hvw⟩ := hgh.exists_vertex hv
    obtain ⟨ws, hnames, hws⟩ := ih hvs
    refine ⟨w :: ws, ?_, List.forall_mem_cons.mpr ⟨hw, hws⟩⟩
    rw [List.map_cons, List.map_cons, hnames, hvw.name]

/-- A course that comes to rest does so in every graph alike. -/
theorem Alike.exists_rests (hgh : g.Alike h) (hg : g.Indexed) (hh : h.Indexed)
    (href : ∀ v w : Vertex R, v.Alike w → reference v = reference' w) {name : String}
    (hrests : ∃ vs v, g.Takes reference name (.rests vs v)) :
    ∃ ws w, h.Takes reference' name (.rests ws w) := by
  obtain ⟨vs, v, ⟨htrail, hvs⟩, hv, hnone⟩ := hrests
  -- the frames beside those of the course, which bear the same names
  obtain ⟨ws, hnames, hws⟩ := hgh.exists_vertices hvs
  obtain ⟨w, hw, hvw⟩ := hgh.exists_vertex hv
  refine ⟨ws, w, ⟨?_, hws⟩, hw, href v w hvw ▸ hnone⟩
  rw [hnames, ← hvw.name]
  exact htrail.imp fun a b hab => hgh.follow_of_follow hg hh href hab

/-- **Whether anything is wrong with the references of a graph does not depend on
poses.** -/
theorem Alike.validate_eq_nil [Mul R] [Add R] [Sub R] [OfNat R 0] [OfNat R 1] (hgh : g.Alike h)
    (hg : g.Indexed) (hh : h.Indexed) (hvalidate : g.validate = []) : h.validate = [] := by
  obtain ⟨hrelative, hattached⟩ := List.append_eq_nil_iff.mp hvalidate
  rw [relativeErrors_eq_nil_iff hg] at hrelative
  rw [attachedErrors_eq_nil_iff hg] at hattached
  refine List.append_eq_nil_iff.mpr
    ⟨(relativeErrors_eq_nil_iff hh).mpr fun w hw => ?_,
      (attachedErrors_eq_nil_iff hh).mpr fun w hw hkind => ?_⟩
  -- a frame of one graph has its counterpart in the other, whose course rests
  · obtain ⟨v, hv, hwv⟩ := hgh.symm.exists_vertex hw
    have hrests := (exists_poseInScope_iff hg).mp (hrelative v hv)
    rw [exists_poseInScope_iff hh, hwv.name]
    exact hgh.exists_rests hg hh (fun _ _ => hgh.relativeReference_eq) hrests
  · obtain ⟨v, hv, hwv⟩ := hgh.symm.exists_vertex hw
    have hkind : Attachable v := by rwa [Attachable, hwv.kind] at hkind
    have hrests := (exists_attachedBody_iff hg).mp (hattached v hv hkind)
    rw [exists_attachedBody_iff hh, hwv.name]
    exact hgh.exists_rests hg hh (fun _ _ => hgh.attachedReference_eq) hrests

end FrameGraph

end Scene

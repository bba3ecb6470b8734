/-
Models that are written and read back.

A model is read back as an equal one if each of its children is
(`exists_ofElement_of_children`).  The graph is not written but built again from
what was read back, so the one that is kept must be the one the children give,
with nothing wrong with it.  Models nest, so what is said of a model here is
shown of the models in it first.
-/
import Scene.Proofs.Reading.Model
import Scene.Proofs.Writing.Scope

namespace Scene

open Reported Element

variable {policy : Policy}

/-! ### Explicit frames -/

namespace Frame

/-- The place of a frame reads back. -/
def ReadsBack (f : Frame) : Prop := f.placement.ReadsBack

/-- The only child that a frame can have is its pose. -/
def layout (f : Frame) : List (String × List Element) := [("pose", f.placement.elements)]

/-- The children of a frame are a pose, if it has one. -/
theorem grouped (f : Frame) : f.toElement.Grouped knownTags f.layout [] where
  children := by simp [toElement, layout, pushPlacement_eq]
  tags := by simp [layout, knownTags]
  nodup := by simp [layout]
  unknown := by simp

theorem headed (f : Frame) :
    f.toElement.Headed "frame" (("name", f.name) :: nonempty "attached_to" f.attachedTo) where
  tag := by simp [toElement, pushPlacement_eq]
  attributes := by
    rw [toElement, pushPlacement_eq, attributes_pushAll, attributes_setNonempty]
    · simp [putAttribute]
    · simp [putAttribute]
  text := by simp [toElement, pushPlacement_eq]

/-- Every frame can be written. -/
theorem proper (f : Frame) : f.toElement.Proper :=
  f.grouped.proper f.headed ["name", "attached_to"]
    (.cons_cons _ (sublist_nonempty _ _)) (by decide +kernel) (by simp [layout]) (by simp)

/-- A frame is read back as an equal one, if its name is not reserved. -/
theorem exists_ofElement {f : Frame} (hname : IsFrameName f.name) (hback : f.ReadsBack) :
    ∃ g, (ofElement f.toElement).Gives policy (some g) ∧ (f == g) = true := by
  obtain ⟨placement, hplacement, hpeq⟩ :=
    f.grouped.exists_readPlacement policy (by simp [layout]) hback
  refine ⟨{ f with placement }, ?_, beq_iff.mpr ⟨rfl, rfl, hpeq⟩⟩
  have hattached : (f.toElement.attribute? "attached_to").getD "" = f.attachedTo :=
    getD_attribute?_nonempty _ (by simp) (f.headed.attributes.trans List.singleton_append.symm)
  simp only [ofElement, gives_bind]
  refine ⟨_, f.headed.gives_readFrameName hname, ?_⟩
  simp only [gives_bind, gives_pure, hattached]
  exact ⟨placement, hplacement, (), f.grouped.gives_checkChildren, rfl⟩

end Frame

/-! ### Models -/

namespace Model

/-- What a model holds reads back, the models in it aside. -/
structure HoldsReadBack (m : Model) : Prop where
  placement : m.placement.ReadsBack
  links : ∀ l ∈ m.links, l.ReadsBack
  joints : ∀ j ∈ m.joints, j.ReadsBack
  frames : ∀ f ∈ m.frames, f.ReadsBack
  unknown : ∀ u ∈ m.unknown, u.WellNamed

/-- What a model holds reads back at every depth. -/
inductive ReadsBack : Model → Prop
  | mk (m : Model) : m.HoldsReadBack → (∀ k ∈ m.models, k.ReadsBack) → m.ReadsBack

theorem ReadsBack.holds {m : Model} (h : m.ReadsBack) : m.HoldsReadBack := by
  cases h with
  | mk _ hholds _ => exact hholds

/-- The models in one that reads back read back. -/
theorem ReadsBack.nested {m k : Model} (h : m.ReadsBack) (hk : k ∈ m.models) : k.ReadsBack := by
  cases h with
  | mk _ _ hmodels => exact hmodels k hk

/-- The children of a model that are known.  The flags are written only where
they are set. -/
def layout (m : Model) : List (String × List Element) :=
  [("static", if m.isStatic = false then [] else [field "static" m.isStatic]),
    ("self_collide", if m.selfCollide = false then [] else [field "self_collide" m.selfCollide]),
    ("pose", m.placement.elements), ("link", m.links.map Link.toElement),
    ("joint", m.joints.map Joint.toElement), ("frame", m.frames.map Frame.toElement),
    ("model", m.models.map toElement)]

/-- Models side by side are written one by one. -/
theorem toElements_eq (ms : List Model) : toElements ms = ms.map toElement := by
  induction ms with
  | nil => rfl
  | cons m ms ih => rw [toElements, ih, List.map_cons]

/-- A model is written with its groups in a row. -/
theorem toElement_eq (m : Model) : m.toElement =
    (((ofTag "model").setAttribute "name" m.name).setNonempty "canonical_link"
      m.canonicalLink).pushAll (m.layout.flatMap Prod.snd ++ m.unknown) := by
  obtain ⟨name, placement, isStatic, selfCollide, canonicalLink, links, joints, frames, models,
    graph, unknown⟩ := m
  rw [toElement, toElements_eq, elementWith]
  simp only [pushPlacement_eq, pushValue_eq, pushAll_eq, layout]
  cases isStatic <;> cases selfCollide <;> simp [push]

/-- The children of a model are those of its layout, and then the unknown ones. -/
theorem grouped {m : Model} (hunknown : ∀ u ∈ m.unknown, u.tag ∉ knownTags) :
    m.toElement.Grouped knownTags m.layout m.unknown where
  children := by simp [toElement_eq]
  tags := by
    have hl (l : Link) : l.toElement.tag = "link" := l.headed.tag
    have hj (j : Joint) : j.toElement.tag = "joint" := j.headed.tag
    have hf (f : Frame) : f.toElement.tag = "frame" := f.headed.tag
    have hm (k : Model) : k.toElement.tag = "model" := by simp [toElement_eq]
    simp only [layout, List.forall_mem_cons, List.not_mem_nil, false_implies, implies_true,
      and_true, List.forall_mem_map, hl, hj, hf, hm]
    exact ⟨⟨by decide, forall_mem_ite' rfl⟩, ⟨by decide, forall_mem_ite' rfl⟩,
      ⟨by decide, by simp⟩, by decide⟩
  nodup := by simp [layout]
  unknown := hunknown

/-- A model names its canonical link only if there is one to name. -/
theorem headed (m : Model) :
    m.toElement.Headed "model" (("name", m.name) :: nonempty "canonical_link" m.canonicalLink) where
  tag := by simp [toElement_eq]
  attributes := by
    rw [toElement_eq, attributes_pushAll, attributes_setNonempty]
    · simp [putAttribute]
    · simp [putAttribute]
  text := by simp [toElement_eq]

/-- A checked model can be written if its nested ones can. -/
theorem proper_of_checked {m : Model} (hchecked : m.Checked policy) (hback : m.HoldsReadBack)
    (hmodels : ∀ k ∈ m.models, k.toElement.Proper) : m.toElement.Proper := by
  refine (grouped hchecked.unknown.unknown).proper m.headed ["name", "canonical_link"]
    (.cons_cons _ (sublist_nonempty _ _)) (by decide +kernel) ?_
    fun u hu => ⟨hback.unknown u hu, hchecked.unknown.tidy u hu⟩
  have hflag (tag : String) (b : Bool) (htag : Markup.IsName tag) :
      ∀ c ∈ (if b = false then [] else [field tag b]), c.Proper :=
    forall_mem_ite' (proper_field htag (isTidy_write_bool b))
  simp only [layout, List.forall_mem_cons, List.not_mem_nil, false_implies, implies_true, and_true,
    List.forall_mem_map]
  exact ⟨hflag _ _, hflag _ _, by simp,
    fun _ l hl => Link.proper (hchecked.links l hl) (hback.links l hl),
    fun _ j hj => Joint.proper (hchecked.joints j hj) (hback.joints j hj), fun _ f _ => f.proper,
    fun _ => hmodels⟩

/-- A valid model can be written, with its models at every depth. -/
theorem proper {m : Model} (hvalid : m.Valid policy) (hback : m.ReadsBack) :
    m.toElement.Proper := by
  induction hvalid with
  | mk m hchecked _ ih =>
    exact proper_of_checked hchecked hback.holds fun k hk => ih k hk (hback.nested hk)

/-- What is read of each child of a model is equal to it. -/
structure ChildrenReadBack (policy : Policy) (m : Model) : Prop where
  links : ∀ l ∈ m.links, ∃ k, (Link.ofElement l.toElement).Gives policy (some k) ∧ (l == k) = true
  joints : ∀ j ∈ m.joints, ∃ k,
    (Joint.ofElement j.toElement).Gives policy (some k) ∧ (j == k) = true
  frames : ∀ f ∈ m.frames, ∃ g,
    (Frame.ofElement f.toElement).Gives policy (some g) ∧ (f == g) = true
  models : ∀ n ∈ m.models, ∃ k, (ofElement n.toElement).Gives policy (some k) ∧ (n == k) = true

/-- Where nothing is wrong with the graph, the names in each row of children
differ. -/
theorem Consistent.distinct_rows {m : Model} (h : m.Consistent) :
    Distinct m.links ∧ Distinct m.joints ∧ Distinct m.frames ∧ Distinct m.models := by
  have hnodup : (m.childVertices.map Vertex.name).Nodup := (List.nodup_cons.mp h.distinct).2
  simp only [childVertices, List.map_append, List.map_map, List.nodup_append] at hnodup
  obtain ⟨⟨⟨hlinks, hmodels, -⟩, hjoints, -⟩, hframes, -⟩ := hnodup
  exact ⟨hlinks, hjoints, hframes, hmodels⟩

/-- The rows of children of a model are read back, if the children are. -/
theorem exists_children {m : Model} (hunknown : KeptUnknown policy knownTags m.unknown)
    (hconsistent : m.Consistent) (hback : m.ChildrenReadBack policy) :
    ∃ links joints frames models, (m.toElement.readAll Link.ofElement).Gives policy links ∧
      (m.toElement.readAll Joint.ofElement).Gives policy joints ∧
      (m.toElement.readAll Frame.ofElement).Gives policy frames ∧
      (m.toElement.readAll ofElement).Gives policy models ∧
      m.Agrees { m with links, joints, frames, models } := by
  have hgrouped := grouped hunknown.unknown
  -- no child is dropped for its name
  obtain ⟨hldistinct, hjdistinct, hfdistinct, hmdistinct⟩ := hconsistent.distinct_rows
  obtain ⟨links, hlinks, hleq⟩ : ∃ ls, (m.toElement.readAll Link.ofElement).Gives policy ls ∧
      List.Forall₂ (fun l k => (l == k) = true) m.links ls :=
    hgrouped.exists_readAll (by simp [layout, Named.kind]) (fun l k hlk => (Link.beq_iff.mp hlk).1)
      hldistinct hback.links
  obtain ⟨joints, hjoints, hjeq⟩ : ∃ js, (m.toElement.readAll Joint.ofElement).Gives policy js ∧
      List.Forall₂ (fun j k => (j == k) = true) m.joints js :=
    hgrouped.exists_readAll (by simp [layout, Named.kind]) (fun j k hjk => (Joint.beq_iff.mp hjk).1)
      hjdistinct hback.joints
  obtain ⟨frames, hframes, hfeq⟩ : ∃ fs, (m.toElement.readAll Frame.ofElement).Gives policy fs ∧
      List.Forall₂ (fun f g => (f == g) = true) m.frames fs :=
    hgrouped.exists_readAll (by simp [layout, Named.kind]) (fun f g hfg => (Frame.beq_iff.mp hfg).1)
      hfdistinct hback.frames
  obtain ⟨models, hkmodels, hmeq⟩ : ∃ ks, (m.toElement.readAll ofElement).Gives policy ks ∧
      List.Forall₂ (fun k k' => (k == k') = true) m.models ks :=
    hgrouped.exists_readAll (by simp [layout, Named.kind]) (fun k k' hkk => (beq_iff.mp hkk).1)
      hmdistinct hback.models
  rw [← beq_list_iff] at hleq hjeq hfeq hmeq
  exact ⟨links, joints, frames, models, hlinks, hjoints, hframes, hkmodels,
    ⟨rfl, rfl, hleq, hjeq, hfeq, hmeq⟩⟩

/-- A model that is read back has the bodies it needs, as the one written has. -/
theorem Agrees.not_bodiless {m k : Model} (h : m.Agrees k)
    (hbodies : m.isStatic = true ∨ m.links ≠ [] ∨ m.models ≠ []) :
    ¬ ((!m.isStatic) = true ∧ k.links.isEmpty = true ∧ k.models.isEmpty = true) := by
  rintro ⟨hstatic, hnolinks, hnomodels⟩
  have hlinks := h.links
  have hmodels := h.models
  rw [List.isEmpty_iff] at hnolinks hnomodels
  rw [hnolinks, beq_list_iff, List.forall₂_nil_right_iff] at hlinks
  rw [hnomodels, beq_list_iff, List.forall₂_nil_right_iff] at hmodels
  rcases hbodies with hbody | hbody | hbody
  · simp [hbody] at hstatic
  · exact hbody hlinks
  · exact hbody hmodels

/-- A model whose children are read back is read back itself, if nothing is
wrong with its graph, and that graph is the one its children give. -/
theorem exists_ofElement_of_children {m : Model} (hname : IsFrameName m.name)
    (hplace : m.placement.ReadsBack) (hbodies : m.isStatic = true ∨ m.links ≠ [] ∨ m.models ≠ [])
    (hdraft : m.draft.errors = []) (hdrafted : m.graph = m.draft.graph)
    (hunknown : KeptUnknown policy knownTags m.unknown) (hback : m.ChildrenReadBack policy) :
    ∃ k, (ofElement m.toElement).Gives policy (some k) ∧ (m == k) = true := by
  have hgrouped := grouped hunknown.unknown
  have hwhole := m.draft_errors_eq_nil_iff.mp hdraft
  obtain ⟨placement, hplacement, hpeq⟩ :=
    hgrouped.exists_readPlacement policy (by simp [layout]) hplace
  obtain ⟨links, joints, frames, models, hlinks, hjoints, hframes, hkmodels, hrows⟩ :=
    exists_children hunknown hwhole hback
  -- the graph of the new model is that of its children
  have hagrees : m.Agrees { m with placement, links, joints, frames, models, graph := .model "" } :=
    ⟨rfl, rfl, hrows.links, hrows.joints, hrows.frames, hrows.models⟩
  obtain ⟨hconsistent, hgraph⟩ := hagrees.consistent hwhole
  have herrors := (draft_errors_eq_nil_iff _).mpr hconsistent
  rw [← hdrafted] at hgraph
  refine ⟨(rebuildScope { m with
      placement, links, joints, frames, models, graph := .model "" }).1, ?_,
    beq_iff.mpr ⟨rfl, hpeq, rfl, rfl, rfl, hrows.links, hrows.joints, hrows.frames, hrows.models,
      hgraph, beq_self_eq_true m.unknown⟩⟩
  have hcanonical : (m.toElement.attribute? "canonical_link").getD "" = m.canonicalLink :=
    getD_attribute?_nonempty _ (by simp) (m.headed.attributes.trans List.singleton_append.symm)
  rw [ofElement_eq]
  simp only [assemble, gives_bind]
  refine ⟨_, m.headed.gives_readFrameName hname, ?_⟩
  simp only [gives_bind]
  refine ⟨placement, hplacement, _, hgrouped.gives_unknownChildren hunknown,
    m.isStatic, hgrouped.gives_readFlagD_of_default (by simp [layout]),
    m.selfCollide, hgrouped.gives_readFlagD_of_default (by simp [layout]), links, hlinks,
    joints, hjoints, frames, hframes, models, hkmodels, ?_⟩
  -- there is a body, for there was one before
  rw [if_neg (hagrees.not_bodiless hbodies)]
  simp only [gives_bind, gives_pure, gives_failAll, rebuildScope, hcanonical]
  exact ⟨(), herrors, trivial⟩

/-- **A model is read back as an equal one**, at every depth. -/
theorem exists_ofElement {m : Model} (hvalid : m.Valid policy) (hback : m.ReadsBack) :
    ∃ k, (ofElement m.toElement).Gives policy (some k) ∧ (m == k) = true := by
  -- from the models in a model to the model
  induction hvalid with
  | mk m hchecked _ ih =>
    have hholds := hback.holds
    have hchildren : m.ChildrenReadBack policy :=
      ⟨fun l hl => Link.exists_ofElement (hchecked.links l hl) (hholds.links l hl),
        fun j hj => Joint.exists_ofElement (hchecked.joints j hj) (hholds.joints j hj),
        fun f hf => Frame.exists_ofElement (hchecked.frames f hf) (hholds.frames f hf),
        fun k hk => ih k hk (hback.nested hk)⟩
    exact exists_ofElement_of_children hchecked.name hholds.placement hchecked.bodies
      hchecked.errors hchecked.graph hchecked.unknown hchildren

end Model

end Scene

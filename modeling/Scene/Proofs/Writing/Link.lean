/-
Links that are written and read back.

For each object there is its layout, the condition that what it holds reads
back, and the statement that reading its element gives an equal object.  What a
link holds is read without an owner, and gets it when the link adopts it; so
these objects are compared as if they had the same one.
-/
import Scene.Proofs.Writing.Light

namespace Scene

open Reported Element

variable {policy : Policy}

/-! ### Collisions -/

namespace Collision

/-- Collisions are compared field by field, with their owners. -/
theorem beq_iff {c d : Collision} : (c == d) = true ↔
    c.name = d.name ∧ (c.placement == d.placement) = true ∧ (c.geometry == d.geometry) = true ∧
      c.owner = d.owner := by
  obtain ⟨⟩ := c
  obtain ⟨⟩ := d
  show instBEqCollision.beq _ _ = true ↔ _
  simp [instBEqCollision.beq]

/-- The numbers of a collision and of its shape read back. -/
structure ReadsBack (c : Collision) : Prop where
  placement : c.placement.ReadsBack
  geometry : c.geometry.ReadsBack

/-- Equal as things of the same owner. -/
def Alike (c d : Collision) : Prop := (c == { d with owner := c.owner }) = true

/-- The children of a collision: where it is, and its shape. -/
def layout (c : Collision) : List (String × List Element) :=
  [("pose", c.placement.elements), ("geometry", [c.geometry.toElement])]

/-- The children of a collision are a pose, if it has one, and a shape. -/
theorem grouped (c : Collision) : c.toElement.Grouped knownTags c.layout [] where
  children := by simp [toElement, layout, pushPlacement_eq]
  tags := by simp [layout, knownTags]
  nodup := by simp [layout]
  unknown := by simp

theorem headed (c : Collision) : c.toElement.Headed "collision" [("name", c.name)] where
  tag := by simp [toElement, pushPlacement_eq]
  attributes := by simp [toElement, pushPlacement_eq, putAttribute]
  text := by simp [toElement, pushPlacement_eq]

/-- A valid collision can be written. -/
theorem proper {c : Collision} (hvalid : c.Valid policy) (hback : c.ReadsBack) :
    c.toElement.Proper := by
  have hgeometry := Geometry.proper hvalid.geometry hback.geometry
  exact c.grouped.proper c.headed ["name"] (.refl _) (by decide +kernel)
    (by simp [layout, hgeometry])
    (by simp)

/-- A valid collision is read back, but for its owner. -/
theorem exists_ofElement {c : Collision} (hvalid : c.Valid policy) (hback : c.ReadsBack) :
    ∃ d, (ofElement c.toElement).Gives policy (some d) ∧ c.Alike d := by
  obtain ⟨placement, hplacement, hpeq⟩ :=
    c.grouped.exists_readPlacement policy (by simp [layout]) hback.placement
  obtain ⟨geometry, hgeometry, hgeq⟩ := Geometry.exists_ofElement hvalid.geometry hback.geometry
  refine ⟨{ name := c.name, placement, geometry }, ?_, beq_iff.mpr ⟨rfl, hpeq, hgeq, rfl⟩⟩
  have hparts : ("geometry", [c.geometry.toElement]) ∈ c.layout := by simp [layout]
  have hchild : c.toElement.child? "geometry" = some c.geometry.toElement :=
    c.grouped.child? hparts
  simp only [ofElement, gives_bind]
  refine ⟨_, c.headed.gives_readFrameName hvalid.name, ?_⟩
  simp only [hchild, gives_bind, gives_pure]
  exact ⟨placement, hplacement, (), c.grouped.gives_checkChildren, geometry, hgeometry, rfl⟩

end Collision

/-! ### Visuals -/

namespace Material

/-- The four colors read back. -/
structure ReadsBack (m : Material) : Prop where
  ambient : m.ambient.ReadsBack
  diffuse : m.diffuse.ReadsBack
  specular : m.specular.ReadsBack
  emissive : m.emissive.ReadsBack

/-- The children of a material are its colors. -/
def layout (m : Material) : List (String × List Element) :=
  [("ambient", [field "ambient" m.ambient]), ("diffuse", [field "diffuse" m.diffuse]),
    ("specular", [field "specular" m.specular]), ("emissive", [field "emissive" m.emissive])]

theorem grouped (m : Material) :
    m.toElement.Grouped ["ambient", "diffuse", "specular", "emissive"] m.layout [] where
  children := by simp [toElement, layout, pushValue_eq]
  tags := by simp [layout]
  nodup := by simp [layout]
  unknown := by simp

theorem headed (m : Material) : m.toElement.Headed "material" [] := ⟨rfl, rfl, rfl⟩

@[simp] theorem tag_toElement (m : Material) : m.toElement.tag = "material" := rfl

/-- A material can be written. -/
theorem proper {m : Material} (hback : m.ReadsBack) : m.toElement.Proper := by
  refine m.grouped.proper m.headed [] (.refl _) (by decide +kernel) ?_ (by simp)
  simp only [layout, List.forall_mem_cons, List.not_mem_nil, false_implies, implies_true, and_true]
  exact ⟨proper_faithful hback.ambient.faithful, proper_faithful hback.diffuse.faithful,
    proper_faithful hback.specular.faithful, proper_faithful hback.emissive.faithful⟩

/-- A material is read back as it is. -/
theorem gives_ofElement {m : Material} (hback : m.ReadsBack) :
    (ofElement m.toElement).Gives policy m := by
  simp only [ofElement, gives_bind, gives_pure]
  exact ⟨_, m.grouped.gives_readValueD (by simp [layout]) hback.ambient.faithful,
    _, m.grouped.gives_readValueD (by simp [layout]) hback.diffuse.faithful,
    _, m.grouped.gives_readValueD (by simp [layout]) hback.specular.faithful,
    _, m.grouped.gives_readValueD (by simp [layout]) hback.emissive.faithful, rfl⟩

/-- A material that reads back equals itself. -/
theorem ReadsBack.refl {m : Material} (h : m.ReadsBack) : (m == m) = true := by
  show (m.ambient == m.ambient && (m.diffuse == m.diffuse && (m.specular == m.specular
    && m.emissive == m.emissive))) = true
  rw [h.ambient.faithful.refl, h.diffuse.faithful.refl, h.specular.faithful.refl,
    h.emissive.faithful.refl]
  rfl

end Material

namespace Visual

/-- Visuals are compared field by field, with their owners. -/
theorem beq_iff {v w : Visual} : (v == w) = true ↔
    v.name = w.name ∧ (v.placement == w.placement) = true ∧ (v.geometry == w.geometry) = true ∧
      v.castShadows = w.castShadows ∧ (v.transparency == w.transparency) = true ∧
      (v.material == w.material) = true ∧ v.owner = w.owner := by
  obtain ⟨⟩ := v
  obtain ⟨⟩ := w
  show instBEqVisual.beq _ _ = true ↔ _
  simp [instBEqVisual.beq]

/-- The numbers of a visual, of its shape and of its material read back. -/
structure ReadsBack (v : Visual) : Prop where
  placement : v.placement.ReadsBack
  geometry : v.geometry.ReadsBack
  transparency : Number.ReadsBack v.transparency
  material : ∀ m, v.material = some m → m.ReadsBack

/-- Equal as things of the same owner. -/
def Alike (v w : Visual) : Prop := (v == { w with owner := v.owner }) = true

/-- The children of a visual.  Shadows and transparency are written only where
they are not the usual ones. -/
def layout (v : Visual) : List (String × List Element) :=
  [("pose", v.placement.elements),
    ("cast_shadows", if v.castShadows = true then [] else [field "cast_shadows" v.castShadows]),
    ("transparency", if (v.transparency == 0) = true then [] else
      [field "transparency" v.transparency]),
    ("geometry", [v.geometry.toElement]),
    ("material", v.material.toList.map Material.toElement)]

/-- The element of a visual, with optional children as rows of one or none. -/
theorem toElement_eq (v : Visual) : v.toElement =
    (((((ofTag "visual").setAttribute "name" v.name).pushAll v.placement.elements).pushAll
      (if v.castShadows = true then [] else [field "cast_shadows" v.castShadows])).pushAll
      (if (v.transparency == 0) = true then [] else [field "transparency" v.transparency])).pushAll
      (v.geometry.toElement :: v.material.toList.map Material.toElement) := by
  obtain ⟨name, placement, geometry, castShadows, transparency, material, owner⟩ := v
  unfold toElement
  -- what is written on a condition is a row of one child or of none
  simp only [pushPlacement_eq, pushValue_eq, ite_push']
  cases material with
  | none => cases castShadows <;> rfl
  | some m => cases castShadows <;> rfl

/-- The children of a visual are those of its layout, of known tags only. -/
theorem grouped (v : Visual) : v.toElement.Grouped knownTags v.layout [] where
  children := by simp [toElement_eq, layout]
  tags := by
    simp only [layout, List.forall_mem_cons, List.not_mem_nil, false_implies, implies_true,
      and_true]
    exact ⟨by simp [knownTags], ⟨by decide, forall_mem_ite' rfl⟩, ⟨by decide, forall_mem_ite' rfl⟩,
      by simp [knownTags], by simp [knownTags]⟩
  nodup := by simp [layout]
  unknown := by simp

theorem headed (v : Visual) : v.toElement.Headed "visual" [("name", v.name)] where
  tag := by simp [toElement_eq]
  attributes := by simp [toElement_eq, putAttribute]
  text := by simp [toElement_eq]

/-- A valid visual can be written. -/
theorem proper {v : Visual} (hvalid : v.Valid policy) (hback : v.ReadsBack) :
    v.toElement.Proper := by
  refine v.grouped.proper v.headed ["name"] (.refl _) (by decide +kernel) ?_ (by simp)
  simp only [layout, List.forall_mem_cons, List.not_mem_nil, false_implies, implies_true, and_true]
  refine ⟨by simp, fun htag => forall_mem_ite' (proper_field htag (isTidy_write_bool _)),
    fun htag => forall_mem_ite' (proper_faithful hback.transparency.faithful htag),
    fun _ => Geometry.proper hvalid.geometry hback.geometry, ?_⟩
  simpa using fun _ m hm => Material.proper (hback.material m hm)

/-- A valid visual is read back, but for its owner. -/
theorem exists_ofElement {v : Visual} (hvalid : v.Valid policy) (hback : v.ReadsBack) :
    ∃ w, (ofElement v.toElement).Gives policy (some w) ∧ v.Alike w := by
  obtain ⟨placement, hplacement, hpeq⟩ :=
    v.grouped.exists_readPlacement policy (by simp [layout]) hback.placement
  obtain ⟨geometry, hgeometry, hgeq⟩ := Geometry.exists_ofElement hvalid.geometry hback.geometry
  obtain ⟨transparency, htransparency, hteq⟩ : ∃ x,
      (v.toElement.readShareD "transparency" 0).Gives policy x ∧ (v.transparency == x) = true :=
    v.grouped.exists_readShareD (by simp [layout]) hback.transparency hvalid.transparency
  have hshadows : (v.toElement.readFlagD "cast_shadows" true).Gives policy v.castShadows :=
    v.grouped.gives_readFlagD_of_default (by simp [layout])
  have hgeometries : ("geometry", [v.geometry.toElement]) ∈ v.layout := by simp [layout]
  obtain ⟨material, hmaterial, hmeq⟩ : ∃ m, (v.toElement.readChildD "material" none fun m =>
      some <$> Material.ofElement m).Gives policy m ∧ (v.material == m) = true :=
    v.grouped.exists_readChildD (by simp [layout]) fun m hm =>
      ⟨m, gives_map.mpr ⟨m, Material.gives_ofElement (hback.material m hm), rfl⟩,
        (hback.material m hm).refl⟩
  refine ⟨{ v with placement, geometry, transparency, material, owner := "" }, ?_,
    beq_iff.mpr ⟨rfl, hpeq, hgeq, rfl, hteq, hmeq, rfl⟩⟩
  simp only [ofElement, gives_bind]
  refine ⟨_, v.headed.gives_readFrameName hvalid.name, ?_⟩
  simp only [v.grouped.child? hgeometries, List.head?_cons, gives_bind, gives_pure]
  exact ⟨placement, hplacement, (), v.grouped.gives_checkChildren, geometry, hgeometry,
    material, hmaterial, v.castShadows, hshadows, transparency, htransparency, rfl⟩

end Visual

/-! ### Mass -/

namespace Inertia

/-- The moments read back. -/
def ReadsBack (i : Inertia) : Prop := ∀ x ∈ i.values, Number.ReadsBack x

/-- The six entries of an inertia that determine it. -/
def layout (i : Inertia) : List (String × List Element) :=
  [("ixx", [field "ixx" i.ixx]), ("ixy", [field "ixy" i.ixy]), ("ixz", [field "ixz" i.ixz]),
    ("iyy", [field "iyy" i.iyy]), ("iyz", [field "iyz" i.iyz]), ("izz", [field "izz" i.izz])]

theorem grouped (i : Inertia) :
    i.toElement.Grouped ["ixx", "ixy", "ixz", "iyy", "iyz", "izz"] i.layout [] where
  children := by simp [toElement, values, layout, pushValue_eq]
  tags := by simp [layout]
  nodup := by simp [layout]
  unknown := by simp

theorem headed (i : Inertia) : i.toElement.Headed "inertia" [] := ⟨rfl, rfl, rfl⟩

@[simp] theorem tag_toElement (i : Inertia) : i.toElement.tag = "inertia" := rfl

/-- An inertia can be written. -/
theorem proper {i : Inertia} (hback : i.ReadsBack) : i.toElement.Proper := by
  refine i.grouped.proper i.headed [] (.refl _) (by decide +kernel) ?_ (by simp)
  have hvalues : ∀ x ∈ i.values, Faithful x := fun x hx => (hback x hx).faithful
  simp only [values, List.forall_mem_cons, List.not_mem_nil, false_implies, implies_true, and_true]
    at hvalues
  obtain ⟨hixx, hixy, hixz, hiyy, hiyz, hizz⟩ := hvalues
  simp only [layout, List.forall_mem_cons, List.not_mem_nil, false_implies, implies_true, and_true]
  exact ⟨proper_faithful hixx, proper_faithful hixy, proper_faithful hixz, proper_faithful hiyy,
    proper_faithful hiyz, proper_faithful hizz⟩

/-- An inertia that reads back equals itself. -/
theorem ReadsBack.refl {i : Inertia} (h : i.ReadsBack) : (i == i) = true := by
  show (i.ixx == i.ixx && (i.ixy == i.ixy && (i.ixz == i.ixz && (i.iyy == i.iyy
    && (i.iyz == i.iyz && i.izz == i.izz))))) = true
  rw [(h i.ixx (by simp [values])).2, (h i.ixy (by simp [values])).2,
    (h i.ixz (by simp [values])).2, (h i.iyy (by simp [values])).2,
    (h i.iyz (by simp [values])).2, (h i.izz (by simp [values])).2]
  rfl

end Inertia

namespace Inertial

/-- The numbers of an inertial read back, its pose as that of an object does. -/
structure ReadsBack (i : Inertial) : Prop where
  mass : Number.ReadsBack i.mass
  pose : ({ pose := i.pose } : Placement).ReadsBack
  inertia : i.inertia.ReadsBack

/-- The children of an inertial, with a pose as objects have it. -/
def layout (i : Inertial) : List (String × List Element) :=
  [("mass", [field "mass" i.mass]), ("pose", ({ pose := i.pose } : Placement).elements),
    ("inertia", [i.inertia.toElement])]

theorem grouped (i : Inertial) : i.toElement.Grouped ["mass", "pose", "inertia"] i.layout [] where
  children := by simp [toElement, layout, pushValue_eq, pushPlacement_eq]
  tags := by simp [layout]
  nodup := by simp [layout]
  unknown := by simp

theorem headed (i : Inertial) : i.toElement.Headed "inertial" [] where
  tag := by simp [toElement, pushValue_eq, pushPlacement_eq]
  attributes := by simp [toElement, pushValue_eq, pushPlacement_eq]
  text := by simp [toElement, pushValue_eq, pushPlacement_eq]

@[simp] theorem tag_toElement (i : Inertial) : i.toElement.tag = "inertial" := i.headed.tag

/-- An inertial can be written. -/
theorem proper {i : Inertial} (hback : i.ReadsBack) : i.toElement.Proper := by
  refine i.grouped.proper i.headed [] (.refl _) (by decide +kernel) ?_ (by simp)
  simp only [layout, List.forall_mem_cons, List.not_mem_nil, false_implies, implies_true, and_true]
  exact ⟨proper_faithful hback.mass.faithful, by simp, fun _ => Inertia.proper hback.inertia⟩

/-- The inertia of an inertial is read back as it is. -/
theorem gives_readInertia {i : Inertial} (hback : i.ReadsBack) :
    (readInertia i.toElement).Gives policy i.inertia := by
  have hparts : ("inertia", [i.inertia.toElement]) ∈ i.layout := by simp [layout]
  have hm := i.inertia.grouped
  have hvalues : ∀ x ∈ i.inertia.values, Faithful x := fun x hx => (hback.inertia x hx).faithful
  simp only [readInertia, i.grouped.child? hparts, List.head?_cons, gives_bind, gives_pure]
  exact ⟨_, hm.gives_readValueD (by simp [Inertia.layout]) (hvalues _ (by simp [Inertia.values])),
    _, hm.gives_readValueD (by simp [Inertia.layout]) (hvalues _ (by simp [Inertia.values])),
    _, hm.gives_readValueD (by simp [Inertia.layout]) (hvalues _ (by simp [Inertia.values])),
    _, hm.gives_readValueD (by simp [Inertia.layout]) (hvalues _ (by simp [Inertia.values])),
    _, hm.gives_readValueD (by simp [Inertia.layout]) (hvalues _ (by simp [Inertia.values])),
    _, hm.gives_readValueD (by simp [Inertia.layout]) (hvalues _ (by simp [Inertia.values])), rfl⟩

/-- What is checked of a mass does not depend on where its centre is. -/
theorem exists_ofElement {link : String} {i : Inertial} (hcheck : (i.check link).Gives policy ())
    (hback : i.ReadsBack) :
    ∃ k, (ofElement link i.toElement).Gives policy k ∧ (i == k) = true := by
  obtain ⟨⟨pose, relativeTo⟩, hplacement, hpeq⟩ :=
    i.grouped.exists_readPlacement policy (by simp [layout]) hback.pose
  refine ⟨{ i with pose }, ?_, ?_⟩
  · simp only [ofElement, gives_bind, gives_pure]
    exact ⟨i.mass, i.grouped.gives_readValueD (by simp [layout]) hback.mass.faithful, _, hplacement,
      _, gives_readInertia hback, (), hcheck, rfl⟩
  · show (i.mass == i.mass && (i.pose == pose && i.inertia == i.inertia)) = true
    rw [hback.mass.2, (Placement.beq_iff.mp hpeq).1, hback.inertia.refl]
    rfl

end Inertial

/-! ### Links -/

namespace Link

/-- The numbers of a link and of all its parts read back, and what is unknown in
it is well named. -/
structure ReadsBack (l : Link) : Prop where
  placement : l.placement.ReadsBack
  inertial : ∀ i, l.inertial = some i → i.ReadsBack
  collisions : ∀ c ∈ l.collisions, c.ReadsBack
  visuals : ∀ v ∈ l.visuals, v.ReadsBack
  lights : ∀ x ∈ l.lights, x.ReadsBack
  unknown : ∀ u ∈ l.unknown, u.WellNamed

/-- The children of a link that are known, in the order in which they are
written. -/
def layout (l : Link) : List (String × List Element) :=
  [("pose", l.placement.elements), ("inertial", l.inertial.toList.map Inertial.toElement),
    ("collision", l.collisions.map Collision.toElement),
    ("visual", l.visuals.map Visual.toElement), ("light", l.lights.map Light.toElement)]

/-- The children of a link are those of its layout, and then the unknown ones. -/
theorem grouped {l : Link} (hunknown : ∀ u ∈ l.unknown, u.tag ∉ knownTags) :
    l.toElement.Grouped knownTags l.layout l.unknown where
  children := by simp [toElement, layout, pushPlacement_eq]
  tags := by
    have hc (c : Collision) : c.toElement.tag = "collision" := c.headed.tag
    have hv (v : Visual) : v.toElement.tag = "visual" := v.headed.tag
    have hx (x : Light) : x.toElement.tag = "light" := x.headed.tag
    simp [layout, knownTags, hc, hv, hx]
  nodup := by simp [layout]
  unknown := hunknown

theorem headed (l : Link) : l.toElement.Headed "link" [("name", l.name)] where
  tag := by simp [toElement, pushPlacement_eq]
  attributes := by simp [toElement, pushPlacement_eq, putAttribute]
  text := by simp [toElement, pushPlacement_eq]

/-- A valid link can be written. -/
theorem proper {l : Link} (hvalid : l.Valid policy) (hback : l.ReadsBack) :
    l.toElement.Proper := by
  refine (grouped hvalid.unknown.unknown).proper l.headed ["name"] (.refl _) (by decide +kernel) ?_
    fun u hu => ⟨hback.unknown u hu, hvalid.unknown.tidy u hu⟩
  simp only [layout, List.forall_mem_cons, List.not_mem_nil, false_implies, implies_true, and_true,
    List.forall_mem_map, Option.mem_toList]
  exact ⟨by simp, fun _ i hi => Inertial.proper (hback.inertial i hi),
    fun _ c hc => Collision.proper (hvalid.collisions c hc) (hback.collisions c hc),
    fun _ v hv => Visual.proper (hvalid.visuals v hv) (hback.visuals v hv),
    fun _ x hx => Light.proper (hback.lights x hx)⟩

/-- Links are compared field by field. -/
theorem beq_iff {l k : Link} : (l == k) = true ↔
    l.name = k.name ∧ (l.placement == k.placement) = true ∧ (l.inertial == k.inertial) = true ∧
      (l.collisions == k.collisions) = true ∧ (l.visuals == k.visuals) = true ∧
      (l.lights == k.lights) = true ∧ (l.unknown == k.unknown) = true := by
  obtain ⟨⟩ := l
  obtain ⟨⟩ := k
  show instBEqLink.beq _ _ = true ↔ _
  simp [instBEqLink.beq]

/-- **A link is read back as an equal one.**  What it holds gets its name
again. -/
theorem exists_ofElement {l : Link} (hvalid : l.Valid policy) (hback : l.ReadsBack) :
    ∃ k, (ofElement l.toElement).Gives policy (some k) ∧ (l == k) = true := by
  have hgrouped := grouped hvalid.unknown.unknown
  obtain ⟨hcdistinct, hvdistinct, hxdistinct⟩ := hvalid.distinct
  obtain ⟨placement, hplacement, hpeq⟩ :=
    hgrouped.exists_readPlacement policy (by simp [layout]) hback.placement
  have hmass : ("inertial", l.inertial.toList.map Inertial.toElement) ∈ l.layout := by simp [layout]
  have hlamps : ("light", l.lights.map Light.toElement) ∈ l.layout := by simp [layout]
  obtain ⟨inertial, hinertial, hieq⟩ : ∃ o, (l.toElement.readChildD "inertial" none fun i =>
      some <$> Inertial.ofElement l.name i).Gives policy o ∧ (l.inertial == o) = true :=
    hgrouped.exists_readChildD hmass fun i hi => by
      obtain ⟨k, hk, heq⟩ := Inertial.exists_ofElement (hvalid.inertial i hi) (hback.inertial i hi)
      exact ⟨k, gives_map.mpr ⟨k, hk, rfl⟩, heq⟩
  obtain ⟨collisions, hcollisions, hceq⟩ : ∃ cs, (l.toElement.readAll Collision.ofElement).Gives
      policy cs ∧ List.Forall₂ Collision.Alike l.collisions cs :=
    hgrouped.exists_readAll (by simp [layout, Named.kind])
      (fun c d hcd => (Collision.beq_iff.mp hcd).1) hcdistinct fun c hc =>
      Collision.exists_ofElement (hvalid.collisions c hc) (hback.collisions c hc)
  obtain ⟨visuals, hvisuals, hveq⟩ : ∃ vs, (l.toElement.readAll Visual.ofElement).Gives
      policy vs ∧ List.Forall₂ Visual.Alike l.visuals vs :=
    hgrouped.exists_readAll (by simp [layout, Named.kind])
      (fun v w hvw => (Visual.beq_iff.mp hvw).1) hvdistinct fun v hv =>
      Visual.exists_ofElement (hvalid.visuals v hv) (hback.visuals v hv)
  obtain ⟨lights, hlights, hxeq⟩ : ∃ xs, (l.toElement.readAll Light.ofElement).Gives
      policy xs ∧ List.Forall₂ Light.Alike l.lights xs :=
    hgrouped.exists_readAll hlamps
      (fun x y hxy => (Light.beq_iff.mp hxy).1) hxdistinct fun x hx => by
      obtain ⟨y, hy, -, heq⟩ := Light.exists_ofElement (hvalid.lights x hx) (hback.lights x hx)
      exact ⟨y, hy, heq⟩
  refine ⟨adopt { l with placement, inertial, collisions, visuals, lights }, ?_,
    beq_iff.mpr ⟨rfl, hpeq, hieq, ?_, ?_, ?_, beq_self_eq_true l.unknown⟩⟩
  · simp only [ofElement, gives_bind]
    refine ⟨_, l.headed.gives_readFrameName hvalid.name, ?_⟩
    simp only [gives_bind, gives_pure]
    exact ⟨placement, hplacement, _, hgrouped.gives_unknownChildren hvalid.unknown, inertial,
      hinertial, collisions, hcollisions, visuals, hvisuals, lights, hlights, rfl⟩
  -- what it holds is equal up to the owner, and is adopted by a link of the same name
  · refine beq_map_of_forall₂ (fun c d howner hcd => ?_) (fun c => hvalid.owner_collision) hceq
    exact howner ▸ hcd
  · refine beq_map_of_forall₂ (fun v w howner hvw => ?_) (fun v => hvalid.owner_visual) hveq
    exact howner ▸ hvw
  · refine beq_map_of_forall₂ (fun x y howner hxy => ?_) (fun x => hvalid.owner_light) hxeq
    exact howner ▸ hxy

end Link

end Scene

/-
Shapes that are written and read back.

A geometry is read back as an equal one.  It need not be the same: a scale that
equals the usual one is not written.  The normal of a plane is brought to length
one when it is read, so it must be left alone by that.
-/
import Scene.Proofs.Number.Bits
import Scene.Proofs.Writing.Field
import Scene.Writing.Link

namespace Scene

open Reported Element

variable {policy : Policy}

namespace Geometry

/-- The numbers of a shape read back, and a normal has length one already. -/
def ReadsBack : Geometry → Prop
  | .empty => True
  | .box s => s.size.ReadsBack
  | .cylinder s => Number.ReadsBack s.radius ∧ Number.ReadsBack s.length
  | .sphere s => Number.ReadsBack s.radius
  | .capsule s => Number.ReadsBack s.radius ∧ Number.ReadsBack s.length
  | .ellipsoid s => s.radii.ReadsBack
  | .plane s => s.normal.ReadsBack ∧ s.size.ReadsBack ∧ (s.setNormal s.normal).normal = s.normal
  | .mesh s => s.scale.ReadsBack

/-! ### Layouts -/

/-- What is written of a part of a mesh. -/
def submeshElement (name : String) : Element := (ofTag "submesh").push (field "name" name)

/-- The tags known in a shape of whatever kind. -/
def fieldTags : List String :=
  ["size", "radius", "length", "radii", "normal", "uri", "scale", "submesh"]

/-- The children of a shape. -/
def layout : Geometry → List (String × List Element)
  | .empty => []
  | .box s => [("size", [field "size" s.size])]
  | .cylinder s => [("radius", [field "radius" s.radius]), ("length", [field "length" s.length])]
  | .sphere s => [("radius", [field "radius" s.radius])]
  | .capsule s => [("radius", [field "radius" s.radius]), ("length", [field "length" s.length])]
  | .ellipsoid s => [("radii", [field "radii" s.radii])]
  | .plane s => [("normal", [field "normal" s.normal]), ("size", [field "size" s.size])]
  | .mesh s =>
    [("uri", [field "uri" s.uri]),
      ("scale", if s.scale == ⟨1, 1, 1⟩ then [] else [field "scale" s.scale]),
      ("submesh", s.submesh.toList.map submeshElement)]

@[simp] theorem tag_shapeElement (g : Geometry) : g.shapeElement.tag = g.tag := by
  cases g with
  | mesh s =>
    unfold shapeElement
    dsimp only
    split <;> split <;> rfl
  | _ => rfl

/-- The children of a shape are those of its layout. -/
theorem grouped (g : Geometry) : g.shapeElement.Grouped fieldTags g.layout [] where
  children := by
    cases g with
    | mesh s =>
      obtain ⟨uri, scale, submesh⟩ := s
      cases submesh with
      | none => simp [shapeElement, layout, pushValue_eq, ite_push']
      | some name => simp [shapeElement, layout, pushValue_eq, ite_push', submeshElement]
    | _ => simp [shapeElement, layout, pushValue_eq]
  tags := by
    cases g with
    | mesh s =>
      simp only [layout, List.forall_mem_cons, List.not_mem_nil, false_implies, implies_true,
        and_true, List.mem_map]
      refine ⟨by simp [fieldTags], ⟨by decide, forall_mem_ite' rfl⟩, by decide, ?_⟩
      rintro _ ⟨name, -, rfl⟩
      rfl
    | _ => simp [layout, fieldTags]
  nodup := by cases g <;> simp [layout]
  unknown := by simp

/-! ### Reading back -/

/-- The part of a mesh can be written if its name is tidy. -/
theorem proper_submeshElement {name : String} (h : Text.IsTidy name) :
    (submeshElement name).Proper := by
  have hgrouped : (submeshElement name).Grouped ["name"] [("name", [field "name" name])] [] :=
    ⟨rfl, by simp, by simp, by simp⟩
  have hhead : (submeshElement name).Headed "submesh" [] := ⟨rfl, rfl, rfl⟩
  refine hgrouped.proper hhead [] (.refl _) (by decide +kernel) ?_ (by simp)
  simpa using fun htag => proper_field htag h

theorem headed (g : Geometry) : g.shapeElement.Headed g.tag [] := by
  cases g with
  | mesh s =>
    obtain ⟨uri, scale, submesh⟩ := s
    cases submesh with
    | none => constructor <;> simp [shapeElement, pushValue_eq, ite_push']
    | some name => constructor <;> simp [shapeElement, pushValue_eq, ite_push']
  | _ => exact ⟨rfl, rfl, rfl⟩

/-- The tag of a geometry is one of those that are known. -/
theorem mem_tags (g : Geometry) : g.tag ∈ tags := by
  cases g <;> simp [tag, tags]

/-- A valid shape can be written, whatever its kind. -/
theorem proper_shapeElement {g : Geometry} (hvalid : g.Valid policy) (hback : g.ReadsBack) :
    g.shapeElement.Proper := by
  have hnames : ([] : List String).Nodup ∧
      ∀ name ∈ g.tag :: ([] ++ fieldTags), Markup.IsName name := by
    refine ⟨.nil, List.forall_mem_cons.mpr ⟨?_, by decide⟩⟩
    have htags : ∀ tag ∈ tags, Markup.IsName tag := by decide
    exact htags g.tag g.mem_tags
  refine g.grouped.proper g.headed [] (.refl _) hnames ?_ (by simp)
  cases g with
  | empty => simp [layout]
  | box s => simpa [layout] using proper_faithful hback.faithful
  | cylinder s =>
    simpa [layout] using ⟨proper_faithful hback.1.faithful, proper_faithful hback.2.faithful⟩
  | sphere s => simpa [layout] using proper_faithful (Number.ReadsBack.faithful hback)
  | capsule s =>
    simpa [layout] using ⟨proper_faithful hback.1.faithful, proper_faithful hback.2.faithful⟩
  | ellipsoid s => simpa [layout] using proper_faithful hback.faithful
  | plane s =>
    simpa [layout] using ⟨proper_faithful hback.1.faithful, proper_faithful hback.2.1.faithful⟩
  | mesh s =>
    simp only [layout, List.forall_mem_cons, List.not_mem_nil, false_implies, implies_true,
      and_true, List.mem_map, Option.mem_toList]
    refine ⟨fun htag => proper_field htag hvalid.1,
      fun htag => forall_mem_ite' (proper_faithful hback.faithful htag), fun _ => ?_⟩
    rintro _ ⟨name, hname, rfl⟩
    exact proper_submeshElement (hvalid.2 name hname)

/-- A normal that is left alone when it is brought to length one is not too
short. -/
theorem not_norm_le_epsilon {s : Plane} (h : (s.setNormal s.normal).normal = s.normal) :
    ¬ Vec3.norm s.normal ≤ epsilon := by
  intro hshort
  have hnone : s.normal.normalized? Plane.normalTolerance = none :=
    if_pos (Number.le_normalTolerance hshort)
  -- otherwise it would have been replaced by the usual normal, which is not short
  have hup : s.normal = ⟨0, 0, 1⟩ := by
    rw [← h]
    simp [Plane.setNormal, hnone]
  rw [hup] at hshort
  revert hshort
  decide +kernel

section

variable {shape : Element} {known : List String} {groups : List (String × List Element)}
  {tag : String}

/-- A length is read back, if one that is not positive is tolerated. -/
theorem gives_readLength_field {x default : Float} (h : shape.Grouped known groups [])
    (hg : (tag, [field tag x]) ∈ groups) (hx : Number.ReadsBack x)
    (htol : policy.Tolerates (x ≤ 0)) : (readLength shape tag default).Gives policy x :=
  gives_readLength.mpr ⟨field tag x, h.child? hg, hx.faithful.read, htol⟩

/-- Three lengths are read back, if ones that are not positive are tolerated. -/
theorem gives_readLengths_field {v default : Vec3 Float} (h : shape.Grouped known groups [])
    (hg : (tag, [field tag v]) ∈ groups) (hv : v.ReadsBack)
    (htol : policy.Tolerates (v.least ≤ 0)) : (readLengths shape tag default).Gives policy v :=
  gives_readLengths.mpr ⟨field tag v, h.child? hg, hv.faithful.read, htol⟩

end

/-- A mesh without a scale has the usual one. -/
theorem exists_readMesh {s : Mesh} (hvalid : (mesh s).Valid policy) (hback : (mesh s).ReadsBack) :
    ∃ s', (readMesh (mesh s).shapeElement).Gives policy s' ∧ (s == s') = true := by
  have hgrouped := (mesh s).grouped
  have huri : ((mesh s).shapeElement.requireText "uri").Gives policy (some s.uri) :=
    hgrouped.gives_requireText (by simp [layout]) hvalid.1
  have hsubmesh : (((mesh s).shapeElement.child? "submesh").bind fun c => c.childText? "name") =
      s.submesh := by
    have hparts : ("submesh", s.submesh.toList.map submeshElement) ∈ (mesh s).layout := by
      simp [layout]
    rw [hgrouped.child? hparts]
    cases s.submesh <;> rfl
  obtain ⟨scale, hscale, heq⟩ : ∃ scale,
      ((mesh s).shapeElement.readValueD "scale" ⟨1, 1, 1⟩).Gives policy scale ∧
        (s.scale == scale) = true :=
    hgrouped.exists_readValueD (by simp [layout]) hback.faithful
  refine ⟨{ s with scale }, ?_, ?_⟩
  · simp only [readMesh, gives_bind, gives_pure]
    exact ⟨_, huri, scale, hscale, by rw [hsubmesh]; rfl⟩
  · show (s.uri == s.uri && (s.scale == scale && s.submesh == s.submesh)) = true
    simp [heq]

/-- A plane is read back as it is, for its normal has length one already. -/
theorem gives_readPlane {s : Plane} (e : Element) (hback : (plane s).ReadsBack) :
    (readPlane e (plane s).shapeElement).Gives policy s := by
  have hgrouped := (plane s).grouped
  obtain ⟨hnormal, hsize, hself⟩ := hback
  simp only [readPlane, gives_bind]
  refine ⟨some s.normal, hgrouped.gives_requireValue (by simp [layout]) hnormal.faithful, ?_⟩
  simp only [not_norm_le_epsilon hself, if_false, gives_bind, gives_pure]
  refine ⟨_, rfl, s.size, hgrouped.gives_readValueD (by simp [layout]) hsize.faithful, ?_⟩
  show (⟨(s.setNormal s.normal).normal, s.size⟩ : Plane) = s
  rw [hself]

/-- A valid shape is read back as an equal one, whatever its kind. -/
theorem exists_readShape {g : Geometry} (e : Element) (hvalid : g.Valid policy)
    (hback : g.ReadsBack) :
    ∃ g', (readShape e g.shapeElement).Gives policy g' ∧ (g == g') = true := by
  have hgrouped := g.grouped
  unfold readShape
  rw [g.tag_shapeElement]
  cases g with
  | empty => exact ⟨.empty, gives_pure.mpr rfl, rfl⟩
  | box s =>
    simp only [Geometry.tag, gives_bind, gives_pure]
    exact ⟨.box s, ⟨s.size, gives_readLengths_field hgrouped (by simp [layout]) hback hvalid, rfl⟩,
      hback.faithful.refl⟩
  | cylinder s =>
    simp only [Geometry.tag, gives_bind, gives_pure]
    refine ⟨.cylinder s,
      ⟨s.radius, gives_readLength_field hgrouped (by simp [layout]) hback.1 hvalid.1,
        s.length, gives_readLength_field hgrouped (by simp [layout]) hback.2 hvalid.2, rfl⟩, ?_⟩
    show (s.radius == s.radius && s.length == s.length) = true
    rw [hback.1.2, hback.2.2]
    rfl
  | sphere s =>
    simp only [Geometry.tag, gives_bind, gives_pure]
    exact ⟨.sphere s,
      ⟨s.radius, gives_readLength_field hgrouped (by simp [layout]) hback hvalid, rfl⟩, hback.2⟩
  | capsule s =>
    simp only [Geometry.tag, gives_bind, gives_pure]
    refine ⟨.capsule s,
      ⟨s.radius, gives_readLength_field hgrouped (by simp [layout]) hback.1 hvalid.1,
        s.length, gives_readLength_field hgrouped (by simp [layout]) hback.2 hvalid.2, rfl⟩, ?_⟩
    show (s.radius == s.radius && s.length == s.length) = true
    rw [hback.1.2, hback.2.2]
    rfl
  | ellipsoid s =>
    simp only [Geometry.tag, gives_bind, gives_pure]
    exact ⟨.ellipsoid s,
      ⟨s.radii, gives_readLengths_field hgrouped (by simp [layout]) hback hvalid, rfl⟩,
      hback.faithful.refl⟩
  | plane s =>
    simp only [Geometry.tag, gives_bind, gives_pure]
    refine ⟨.plane s, ⟨s, gives_readPlane e hback, rfl⟩, ?_⟩
    show (s.normal == s.normal && s.size == s.size) = true
    rw [hback.1.faithful.refl, hback.2.1.faithful.refl]
    rfl
  | mesh s =>
    simp only [Geometry.tag, gives_bind, gives_pure]
    obtain ⟨s', hs', heq⟩ := exists_readMesh hvalid hback
    exact ⟨.mesh s', ⟨s', hs', rfl⟩, heq⟩

/-! ### Geometries -/

@[simp] theorem tag_toElement (g : Geometry) : g.toElement.tag = "geometry" := rfl

/-- A valid geometry can be written. -/
theorem proper {g : Geometry} (hvalid : g.Valid policy) (hback : g.ReadsBack) :
    g.toElement.Proper := by
  have hgrouped : g.toElement.Grouped tags [(g.tag, [g.shapeElement])] [] :=
    ⟨rfl, by simp [g.mem_tags], by simp, by simp⟩
  have hhead : g.toElement.Headed "geometry" [] := ⟨rfl, rfl, rfl⟩
  have hshape := proper_shapeElement hvalid hback
  exact hgrouped.proper hhead [] (.refl _) (by decide +kernel) (by simp [hshape]) (by simp)

/-- **A geometry is read back as an equal one.** -/
theorem exists_ofElement {g : Geometry} (hvalid : g.Valid policy) (hback : g.ReadsBack) :
    ∃ g', (ofElement g.toElement).Gives policy g' ∧ (g == g') = true := by
  obtain ⟨g', hg', heq⟩ := exists_readShape g.toElement hvalid hback
  refine ⟨g', ?_, heq⟩
  have hchildren : g.toElement.children = [g.shapeElement] := rfl
  have hshape : (g.toElement.children.filter fun c => tags.contains c.tag) = [g.shapeElement] := by
    rw [hchildren, List.filter_cons_of_pos (by simpa using g.mem_tags), List.filter_nil]
  simp only [ofElement, gives_bind, hshape]
  refine ⟨(), gives_checkChildren.mpr ?_, hg'⟩
  rw [hchildren, List.forall_mem_singleton, Policy.Accepts, tag_shapeElement]
  exact .inl g.mem_tags

end Geometry

end Scene

/-
Lights that are written and read back.

A light of whatever type is read with a cone, but only a spot light is written
with one.  So of a light there is `written`, which is what its element says of
it: the light itself if it is a spot light, and the light with the usual cone
otherwise.  An element of a light is read as `written`, up to a pose that is
equal to the light's (`exists_gives_written`).  From this follow both the
statement that links, worlds and documents use, where the cone is required to
be one that is written, and the exact one, for any light that was read.

Main statement: `reread_of_gives`.
-/
import Scene.Proofs.Writing.Shape

namespace Scene

open Reported Element

variable {policy : Policy}

/-! ### What belongs to a light -/

namespace Attenuation

/-- The numbers of an attenuation read back. -/
structure ReadsBack (a : Attenuation) : Prop where
  range : Number.ReadsBack a.range
  constant : Number.ReadsBack a.constant
  linear : Number.ReadsBack a.linear
  quadratic : Number.ReadsBack a.quadratic

/-- The children of an attenuation, in the order in which they are written. -/
def layout (a : Attenuation) : List (String × List Element) :=
  [("range", [field "range" a.range]), ("constant", [field "constant" a.constant]),
    ("linear", [field "linear" a.linear]), ("quadratic", [field "quadratic" a.quadratic])]

theorem grouped (a : Attenuation) :
    a.toElement.Grouped ["range", "constant", "linear", "quadratic"] a.layout [] where
  children := by simp [toElement, layout, pushValue_eq]
  tags := by simp [layout]
  nodup := by simp [layout]
  unknown := by simp

theorem headed (a : Attenuation) : a.toElement.Headed "attenuation" [] := ⟨rfl, rfl, rfl⟩

@[simp] theorem tag_toElement (a : Attenuation) : a.toElement.tag = "attenuation" := rfl

/-- An attenuation can be written. -/
theorem proper {a : Attenuation} (hback : a.ReadsBack) : a.toElement.Proper := by
  refine a.grouped.proper a.headed [] (.refl _) (by decide +kernel) ?_ (by simp)
  simp only [layout, List.forall_mem_cons, List.not_mem_nil, false_implies, implies_true, and_true]
  exact ⟨proper_faithful hback.range.faithful, proper_faithful hback.constant.faithful,
    proper_faithful hback.linear.faithful, proper_faithful hback.quadratic.faithful⟩

/-- An attenuation that reads back equals itself. -/
theorem ReadsBack.refl {a : Attenuation} (h : a.ReadsBack) : (a == a) = true := by
  show (a.range == a.range && (a.constant == a.constant && (a.linear == a.linear
    && a.quadratic == a.quadratic))) = true
  rw [h.range.2, h.constant.2, h.linear.2, h.quadratic.2]
  rfl

end Attenuation

namespace SpotCone

/-- The numbers of a cone read back. -/
structure ReadsBack (s : SpotCone) : Prop where
  innerAngle : Number.ReadsBack s.innerAngle
  outerAngle : Number.ReadsBack s.outerAngle
  falloff : Number.ReadsBack s.falloff

/-- The children of a cone, in the order in which they are written. -/
def layout (s : SpotCone) : List (String × List Element) :=
  [("inner_angle", [field "inner_angle" s.innerAngle]),
    ("outer_angle", [field "outer_angle" s.outerAngle]), ("falloff", [field "falloff" s.falloff])]

theorem grouped (s : SpotCone) :
    s.toElement.Grouped ["inner_angle", "outer_angle", "falloff"] s.layout [] where
  children := by simp [toElement, layout, pushValue_eq]
  tags := by simp [layout]
  nodup := by simp [layout]
  unknown := by simp

theorem headed (s : SpotCone) : s.toElement.Headed "spot" [] := ⟨rfl, rfl, rfl⟩

@[simp] theorem tag_toElement (s : SpotCone) : s.toElement.tag = "spot" := rfl

/-- A cone can be written. -/
theorem proper {s : SpotCone} (hback : s.ReadsBack) : s.toElement.Proper := by
  refine s.grouped.proper s.headed [] (.refl _) (by decide +kernel) ?_ (by simp)
  simp only [layout, List.forall_mem_cons, List.not_mem_nil, false_implies, implies_true, and_true]
  exact ⟨proper_faithful hback.innerAngle.faithful, proper_faithful hback.outerAngle.faithful,
    proper_faithful hback.falloff.faithful⟩

/-- A cone that reads back equals itself. -/
theorem ReadsBack.refl {s : SpotCone} (h : s.ReadsBack) : (s == s) = true := by
  show (s.innerAngle == s.innerAngle && (s.outerAngle == s.outerAngle
    && s.falloff == s.falloff)) = true
  rw [h.innerAngle.2, h.outerAngle.2, h.falloff.2]
  rfl

end SpotCone

/-- Each type of lights is read from its word. -/
theorem LightType.ofString_text (t : LightType) : ofString t.text = .ok t := by
  cases t <;> rfl

namespace Light

/-- Lights are compared field by field, with their owners. -/
theorem beq_iff {l k : Light} : (l == k) = true ↔
    l.name = k.name ∧ l.type = k.type ∧ (l.placement == k.placement) = true ∧
      l.castShadows = k.castShadows ∧ (l.intensity == k.intensity) = true ∧
      (l.diffuse == k.diffuse) = true ∧ (l.specular == k.specular) = true ∧
      (l.direction == k.direction) = true ∧ (l.attenuation == k.attenuation) = true ∧
      (l.spot == k.spot) = true ∧ l.owner = k.owner := by
  obtain ⟨⟩ := l
  obtain ⟨⟩ := k
  show instBEqLight.beq _ _ = true ↔ _
  simp [instBEqLight.beq]

/-- The cone is only written of a spot light, so any other light must have the
usual one. -/
structure ReadsBack (l : Light) : Prop where
  placement : l.placement.ReadsBack
  intensity : Number.ReadsBack l.intensity
  diffuse : l.diffuse.ReadsBack
  specular : l.specular.ReadsBack
  direction : l.direction.ReadsBack
  attenuation : l.attenuation.ReadsBack
  spot : l.spot.ReadsBack
  cone : l.type ≠ .spot → (l.spot == {}) = true

/-- What a light holds reads back, whatever its cone is. -/
structure FieldsReadBack (l : Light) : Prop where
  placement : l.placement.ReadsBack
  intensity : Number.ReadsBack l.intensity
  diffuse : l.diffuse.ReadsBack
  specular : l.specular.ReadsBack
  direction : l.direction.ReadsBack
  attenuation : l.attenuation.ReadsBack
  spot : l.spot.ReadsBack

/-- A light that reads back has fields that do. -/
theorem ReadsBack.fields {l : Light} (h : l.ReadsBack) : l.FieldsReadBack :=
  ⟨h.placement, h.intensity, h.diffuse, h.specular, h.direction, h.attenuation, h.spot⟩

/-- Equal as things of the same owner. -/
def Alike (l k : Light) : Prop := (l == { k with owner := l.owner }) = true

/-- The children of a light.  Only a spot light is written with its cone. -/
def layout (l : Light) : List (String × List Element) :=
  [("pose", l.placement.elements), ("cast_shadows", [field "cast_shadows" l.castShadows]),
    ("intensity", [field "intensity" l.intensity]), ("diffuse", [field "diffuse" l.diffuse]),
    ("specular", [field "specular" l.specular]), ("direction", [field "direction" l.direction]),
    ("attenuation", [l.attenuation.toElement]),
    ("spot", if l.type = .spot then [l.spot.toElement] else [])]

/-- The children of a light are those of its layout, of known tags only. -/
theorem grouped (l : Light) : l.toElement.Grouped knownTags l.layout [] where
  children := by simp [toElement, layout, pushValue_eq, pushPlacement_eq, ite_push]
  tags := by
    simp only [layout, List.forall_mem_cons, List.not_mem_nil, false_implies, implies_true,
      and_true]
    exact ⟨by simp [knownTags], by simp [knownTags], by simp [knownTags], by simp [knownTags],
      by simp [knownTags], by simp [knownTags], by simp [knownTags], by decide, forall_mem_ite rfl⟩
  nodup := by simp [layout]
  unknown := by simp

theorem headed (l : Light) :
    l.toElement.Headed "light" [("name", l.name), ("type", l.type.text)] where
  tag := by simp [toElement, pushValue_eq, pushPlacement_eq, ite_push]
  attributes := by simp [toElement, pushValue_eq, pushPlacement_eq, ite_push, putAttribute]
  text := by simp [toElement, pushValue_eq, pushPlacement_eq, ite_push]

/-- A light can be written. -/
theorem proper {l : Light} (hback : l.ReadsBack) : l.toElement.Proper := by
  refine l.grouped.proper l.headed ["name", "type"] (.refl _) (by decide +kernel) ?_ (by simp)
  simp only [layout, List.forall_mem_cons, List.not_mem_nil, false_implies, implies_true, and_true]
  exact ⟨by simp, fun htag => proper_field htag (isTidy_write_bool _),
    proper_faithful hback.intensity.faithful, proper_faithful hback.diffuse.faithful,
    proper_faithful hback.specular.faithful, proper_faithful hback.direction.faithful,
    fun _ => Attenuation.proper hback.attenuation,
    fun _ => forall_mem_ite (SpotCone.proper hback.spot)⟩

/-- The type of a light is read back. -/
theorem gives_readType (l : Light) : (readType l.toElement).Gives policy l.type := by
  have htype : l.toElement.attribute? "type" = some l.type.text := l.headed.attribute?
  simp only [readType, htype, LightType.ofString_text, gives_pure]

/-- The attenuation of a valid light is read back. -/
theorem gives_readAttenuation {l : Light} (hvalid : l.Valid policy)
    (hback : l.attenuation.ReadsBack) :
    (readAttenuation l.toElement).Gives policy l.attenuation := by
  have hparts : ("attenuation", [l.attenuation.toElement]) ∈ l.layout := by simp [layout]
  have ha := l.attenuation.grouped
  obtain ⟨hrange, hconstant, hlinear, hquadratic⟩ := hback
  simp only [readAttenuation, l.grouped.child? hparts, List.head?_cons, gives_bind]
  refine ⟨_, ha.gives_readValueD (by simp [Attenuation.layout]) hrange.faithful,
    _, ha.gives_readValueD (by simp [Attenuation.layout]) hconstant.faithful,
    _, ha.gives_readValueD (by simp [Attenuation.layout]) hlinear.faithful,
    _, ha.gives_readValueD (by simp [Attenuation.layout]) hquadratic.faithful, ?_⟩
  -- a negative range is warned about, and the policy had to tolerate that before
  split
  · next hnegative =>
    simp only [gives_bind, gives_warn, gives_pure]
    exact ⟨(), hvalid.range hnegative, trivial⟩
  · exact gives_pure.mpr rfl

/-! ### What is written of a light -/

/-- What the element of a light says of it.  The cone is lost unless it is the
cone of a spot light. -/
def written (l : Light) : Light := { l with spot := if l.type = .spot then l.spot else {} }

/-- Of a spot light, the cone is written. -/
theorem spot_written_of_eq {l : Light} (h : l.type = .spot) : l.written.spot = l.spot := if_pos h

/-- Of another light, the usual cone is all that the element stands for. -/
theorem spot_written_of_ne {l : Light} (h : l.type ≠ .spot) : l.written.spot = {} := if_neg h

/-- What is written of a light has fields that read back. -/
theorem FieldsReadBack.written {l : Light} (h : l.FieldsReadBack) : l.written.FieldsReadBack where
  placement := h.placement
  intensity := h.intensity
  diffuse := h.diffuse
  specular := h.specular
  direction := h.direction
  attenuation := h.attenuation
  spot := by
    by_cases htype : l.type = .spot
    · exact spot_written_of_eq htype ▸ h.spot
    · rw [spot_written_of_ne htype]
      constructor <;> decide +kernel

/-- The cone that is written is read back. -/
theorem gives_readSpot {l : Light} (hback : l.spot.ReadsBack) :
    (readSpot l.toElement).Gives policy l.written.spot := by
  have hparts : ("spot", if l.type = .spot then [l.spot.toElement] else []) ∈ l.layout := by
    simp [layout]
  have hchild := l.grouped.child? hparts
  -- of any other light no cone is written, and the usual one is read
  by_cases htype : l.type = .spot
  · have hs := l.spot.grouped
    rw [if_pos htype] at hchild
    simp only [readSpot, hchild, spot_written_of_eq htype, List.head?_cons, gives_bind, gives_pure]
    exact ⟨_, hs.gives_readValueD (by simp [SpotCone.layout]) hback.innerAngle.faithful,
      _, hs.gives_readValueD (by simp [SpotCone.layout]) hback.outerAngle.faithful,
      _, hs.gives_readValueD (by simp [SpotCone.layout]) hback.falloff.faithful, rfl⟩
  · rw [if_neg htype] at hchild
    simp only [readSpot, hchild, spot_written_of_ne htype, List.head?_nil, gives_pure]

/-- The element of a light is read as what is written of it. -/
theorem exists_gives_written {l : Light} (hvalid : l.Valid policy) (hback : l.FieldsReadBack) :
    ∃ placement, (l.placement == placement) = true ∧
      (ofElement l.toElement).Gives policy (some { l.written with placement, owner := "" }) := by
  obtain ⟨placement, hplacement, hpeq⟩ :=
    l.grouped.exists_readPlacement policy (by simp [layout]) hback.placement
  have hshadows : (l.toElement.readFlagD "cast_shadows" false).Gives policy l.castShadows :=
    l.grouped.gives_readFlagD (by simp [layout])
  refine ⟨placement, hpeq, ?_⟩
  simp only [ofElement, gives_bind]
  refine ⟨_, l.headed.gives_readName hvalid.name, ?_⟩
  simp only [gives_bind, gives_pure]
  exact ⟨_, gives_readType l, placement, hplacement, (), l.grouped.gives_checkChildren,
    _, hshadows, _, l.grouped.gives_readValueD (by simp [layout]) hback.intensity.faithful,
    _, l.grouped.gives_readValueD (by simp [layout]) hback.diffuse.faithful,
    _, l.grouped.gives_readValueD (by simp [layout]) hback.specular.faithful,
    _, l.grouped.gives_readValueD (by simp [layout]) hback.direction.faithful,
    _, gives_readAttenuation hvalid hback.attenuation, _, gives_readSpot hback.spot, rfl⟩

/-- Where the poses are equal, a light equals the same light with another cone
if the cones are equal. -/
theorem FieldsReadBack.beq_iff_spot {l : Light} (hback : l.FieldsReadBack) {placement : Placement}
    (hpeq : (l.placement == placement) = true) (spot : SpotCone) :
    (l == { l with placement, spot }) = true ↔ (l.spot == spot) = true := by
  rw [beq_iff]
  refine ⟨fun ⟨_, _, _, _, _, _, _, _, _, hspot, _⟩ => hspot, fun hspot => ?_⟩
  exact ⟨rfl, rfl, hpeq, rfl, hback.intensity.2, hback.diffuse.faithful.refl,
    hback.specular.faithful.refl, hback.direction.faithful.refl, hback.attenuation.refl, hspot,
    rfl⟩

/-- **A light is read back without an owner.** -/
theorem exists_ofElement {l : Light} (hvalid : l.Valid policy) (hback : l.ReadsBack) :
    ∃ k, (ofElement l.toElement).Gives policy (some k) ∧ k.owner = "" ∧ l.Alike k := by
  obtain ⟨placement, hpeq, hgives⟩ := exists_gives_written hvalid hback.fields
  refine ⟨_, hgives, rfl, (hback.fields.beq_iff_spot hpeq l.written.spot).mpr ?_⟩
  by_cases htype : l.type = .spot
  · rw [spot_written_of_eq htype]
    exact hback.spot.refl
  · rw [spot_written_of_ne htype]
    exact hback.cone htype

/-! ### Reading again what was read -/

/-- **A light that was read is read again from its element without errors**, with
everything but the cone.  So it comes back as an equal one if and only if it is
a spot light or has the usual cone. -/
theorem reread_of_gives {e : Element} {l : Light} (h : (ofElement e).Gives policy (some l))
    (hback : l.FieldsReadBack) :
    ∃ k, (ofElement l.toElement).Gives policy (some k) ∧ (l.written == k) = true ∧
      ((l == k) = true ↔ l.type = .spot ∨ (l.spot == {}) = true) := by
  obtain ⟨placement, hpeq, hgives⟩ := exists_gives_written (valid_of_gives h) hback
  -- a light that was read has no owner to lose
  have hk : ({ l.written with placement, owner := "" } : Light) =
      { l with placement, spot := l.written.spot } := by
    rw [← owner_of_gives h]
    rfl
  rw [hk] at hgives
  refine ⟨_, hgives, (hback.written.beq_iff_spot hpeq _).mpr hback.written.spot.refl, ?_⟩
  rw [hback.beq_iff_spot hpeq]
  by_cases htype : l.type = .spot
  · simp [spot_written_of_eq htype, htype, hback.spot.refl]
  · simp [spot_written_of_ne htype, htype]

/-- A lamp with a cone, of whatever type. -/
def lampElement (type : LightType) : Element :=
  (((ofTag "light").setAttribute "name" "lamp").setAttribute "type" type.text).push
    ((ofTag "spot").push (field "inner_angle" (0.5 : Float)))

/-- The light that is read of the lamp. -/
def lamp (type : LightType) : Light := { name := "lamp", type, spot := { innerAngle := 0.5 } }

/-- The lamp is read without errors, whatever its type is. -/
theorem gives_lampElement (type : LightType) :
    (ofElement (lampElement type)).Gives policy (some (lamp type)) := by
  cases type <;> exact ⟨rfl, rfl⟩

/-- The numbers of the lamp read back. -/
theorem fieldsReadBack_lamp (type : LightType) : (lamp type).FieldsReadBack where
  placement := fun h => absurd h (show ¬ Placement.isSilent {} = false by decide +kernel)
  intensity := show Number.ReadsBack 1 by decide +kernel
  diffuse := show Color.ReadsBack .white by decide +kernel
  specular := show Color.ReadsBack ⟨0.1, 0.1, 0.1, 1⟩ by decide +kernel
  direction := show Vec3.ReadsBack ⟨0, 0, -1⟩ by decide +kernel
  attenuation := show Attenuation.ReadsBack {} by constructor <;> decide +kernel
  spot := show SpotCone.ReadsBack { innerAngle := 0.5 } by constructor <;> decide +kernel

/-- As a spot light, the lamp keeps its cone. -/
theorem reread_lamp_spot : (ofElement (lampElement .spot)).Gives .standard (some (lamp .spot)) ∧
    (lamp .spot).FieldsReadBack ∧
    ∃ k, (ofElement (lamp .spot).toElement).Gives .standard (some k) ∧
      (lamp .spot == k) = true := by
  have hgives : (ofElement (lampElement .spot)).Gives .standard (some (lamp .spot)) :=
    gives_lampElement .spot
  have hback := fieldsReadBack_lamp .spot
  obtain ⟨k, hk, -, hiff⟩ := reread_of_gives hgives hback
  exact ⟨hgives, hback, k, hk, hiff.mpr (.inl rfl)⟩

/-- A lamp that shines from a point loses its cone. -/
theorem not_reread_lamp_point :
    (ofElement (lampElement .point)).Gives .standard (some (lamp .point)) ∧
      (lamp .point).FieldsReadBack ∧
      ¬ ∃ k, (ofElement (lamp .point).toElement).Gives .standard (some k) ∧
        (lamp .point == k) = true := by
  refine ⟨gives_lampElement .point, fieldsReadBack_lamp .point, ?_⟩
  rintro ⟨k, hk, heq⟩
  have hplain : (ofElement (lamp .point).toElement).Gives .standard
      (some { name := "lamp" }) := ⟨rfl, rfl⟩
  obtain rfl : k = { name := "lamp" } := Option.some.inj (hk.unique hplain)
  revert heq
  decide +kernel

end Light

end Scene

/-
The names in a document that was loaded, however much was wrong with it.

Readers go on after an error, and what they cannot name they drop: an object
without a name, a frame with a name that the format keeps for itself, and an
object whose name an earlier one of its kind has.  So nothing is asked of the
text but that it is markup.  What is said of names is said without the readers:
which names a frame can have is spelled out, and a document is well named if all
that it holds is, models in models included.

For each kind of object there is one lemma: what its reader gives is well named.
Links, actors and worlds collect what is known of their children.  For models
there is an induction, because they nest.

Main statement: `wellNamed_of_load`.
-/
import Scene.Proofs.Reading.Origin

namespace Scene

open Element Reported

variable {e : Element}

/-! ### Names of frames -/

/-- A name that a frame can have: it is not empty, not that of the world, and
not one between two pairs of underscores. -/
structure IsOwnName (name : String) : Prop where
  ne_empty : name ≠ ""
  ne_world : name ≠ "world"
  not_enclosed : ¬ ∃ middle, 4 < name.utf8ByteSize ∧ name = "__" ++ middle ++ "__"

/-- Two pairs of underscores at the ends of a name do not overlap if it is
longer than four bytes. -/
theorem exists_middle {name : String} (hsize : 4 < name.utf8ByteSize)
    (hfront : "__".toList <+: name.toList) (hback : "__".toList <:+ name.toList) :
    ∃ middle, name = "__" ++ middle ++ "__" := by
  obtain ⟨rest, hrest⟩ := hfront
  have hlist : name.toList = '_' :: '_' :: rest := by simpa using hrest.symm
  have hname : name = String.ofList ('_' :: '_' :: rest) := by rw [← hlist, String.ofList_toList]
  rw [hlist] at hback
  -- a suffix that begins within the first pair leaves two or three underscores
  rcases List.suffix_cons_iff.mp hback with heq | hends
  · rw [hname, ← heq] at hsize
    exact absurd hsize (by decide)
  rcases List.suffix_cons_iff.mp hends with heq | hends
  · rw [hname, ← heq] at hsize
    exact absurd hsize (by decide)
  obtain ⟨middle, rfl⟩ := hends
  refine ⟨String.ofList middle, ?_⟩
  rw [hname, ← String.toList_inj]
  simp

/-- Names that are not reserved are those that the reader accepts. -/
theorem isOwnName_iff {name : String} : IsOwnName name ↔ IsFrameName name := by
  -- what the reader tests of the ends of a name, said of the whole of it
  have hreserved : isReservedName name = true ↔
      name = "world" ∨ ∃ middle, 4 < name.utf8ByteSize ∧ name = "__" ++ middle ++ "__" := by
    simp only [isReservedName, Bool.or_eq_true, beq_iff_eq, Bool.and_eq_true, decide_eq_true_eq,
      List.isPrefixOf_iff_prefix, List.isSuffixOf_iff_suffix, worldFrame]
    refine or_congr_right ⟨?_, ?_⟩
    · rintro ⟨⟨hsize, hfront⟩, hback⟩
      obtain ⟨middle, h⟩ := exists_middle hsize hfront hback
      exact ⟨middle, hsize, h⟩
    · rintro ⟨middle, hsize, h⟩
      refine ⟨⟨hsize, middle.toList ++ "__".toList, ?_⟩, "__".toList ++ middle.toList, ?_⟩
      · simp [h]
      · simp [h]
  rw [IsFrameName, ← Bool.not_eq_true, hreserved]
  constructor
  · rintro ⟨hne, hworld, henclosed⟩
    exact ⟨hne, not_or.mpr ⟨hworld, henclosed⟩⟩
  · rintro ⟨hne, h⟩
    obtain ⟨hworld, henclosed⟩ := not_or.mp h
    exact ⟨hne, hworld, henclosed⟩

/-- A name that is read of a frame is not reserved. -/
theorem isOwnName_of_readFrameName {name : String} (h : e.readFrameName.value = some name) :
    IsOwnName name := by
  obtain ⟨given, hgiven, h⟩ := exists_of_value_bind rfl h
  dsimp only at h
  split at h
  · cases h
  · next hfree =>
    obtain rfl : given = name := Option.some.inj h
    exact isOwnName_iff.mpr ⟨ne_empty_of_readName hgiven, by simpa using hfree⟩

/-- Objects that are read side by side have distinct names. -/
theorem distinct_readAll {α : Type} [Named α] (e : Element)
    (read : Element → Reported (Option α)) : Distinct (e.readAll read).value :=
  nodup_readAll e read

/-! ### Links -/

/-- A collision that is read has a name of its own. -/
theorem Collision.isOwnName_of_ofElement {c : Collision}
    (h : (ofElement e).value = some c) : IsOwnName c.name := by
  obtain ⟨name, hname, h⟩ := exists_of_value_bind rfl h
  dsimp only at h
  split at h
  · cases h
  · obtain rfl := Option.some.inj h
    exact isOwnName_of_readFrameName hname

/-- A visual that is read has a name of its own. -/
theorem Visual.isOwnName_of_ofElement {v : Visual}
    (h : (ofElement e).value = some v) : IsOwnName v.name := by
  obtain ⟨name, hname, h⟩ := exists_of_value_bind rfl h
  dsimp only at h
  split at h
  · cases h
  · obtain rfl := Option.some.inj h
    exact isOwnName_of_readFrameName hname

/-- A light that is read has a name, reserved or not. -/
theorem Light.name_ne_empty_of_ofElement {l : Light}
    (h : (ofElement e).value = some l) : l.name ≠ "" := by
  obtain ⟨name, hname, h⟩ := exists_of_value_bind rfl h
  obtain rfl := Option.some.inj h
  exact ne_empty_of_readName hname

namespace Link

/-- The names in a link. -/
structure WellNamed (l : Link) : Prop where
  name : IsOwnName l.name
  collisions : ∀ c ∈ l.collisions, IsOwnName c.name
  visuals : ∀ v ∈ l.visuals, IsOwnName v.name
  lights : ∀ x ∈ l.lights, x.name ≠ ""
  distinct : Distinct l.collisions ∧ Distinct l.visuals ∧ Distinct l.lights

/-- Who owns what a link holds is no matter of names. -/
theorem WellNamed.adopt {l : Link} (h : l.WellNamed) : l.adopt.WellNamed where
  name := h.name
  collisions := List.forall_mem_map.mpr h.collisions
  visuals := List.forall_mem_map.mpr h.visuals
  lights := List.forall_mem_map.mpr h.lights
  distinct := distinct_adopt h.distinct

/-- A link that is read is well named, with or without errors. -/
theorem wellNamed_of_ofElement {l : Link} (h : (ofElement e).value = some l) : l.WellNamed := by
  obtain ⟨name, hname, h⟩ := exists_of_value_bind rfl h
  obtain rfl := Option.some.inj h
  refine WellNamed.adopt ⟨isOwnName_of_readFrameName hname, ?_, ?_, ?_,
    distinct_readAll .., distinct_readAll .., distinct_readAll ..⟩
  · exact forall_mem_readAll fun _ _ _ => Collision.isOwnName_of_ofElement
  · exact forall_mem_readAll fun _ _ _ => Visual.isOwnName_of_ofElement
  · exact forall_mem_readAll fun _ _ _ => Light.name_ne_empty_of_ofElement

end Link

/-! ### Joints and frames -/

/-- A joint that is read has a name of its own. -/
theorem Joint.isOwnName_of_ofElement {j : Joint}
    (h : (ofElement e).value = some j) : IsOwnName j.name := by
  obtain ⟨_, hname, rfl⟩ := exists_of_ofElement h
  exact isOwnName_of_readFrameName hname

/-- A frame that is read has a name of its own. -/
theorem Frame.isOwnName_of_ofElement {f : Frame}
    (h : (ofElement e).value = some f) : IsOwnName f.name := by
  obtain ⟨name, hname, h⟩ := exists_of_value_bind rfl h
  obtain rfl := Option.some.inj h
  exact isOwnName_of_readFrameName hname

/-! ### Models -/

namespace Model

/-- The names in a model, and in the models in it. -/
inductive WellNamed : Model → Prop
  | mk (m : Model) (name : IsOwnName m.name) (links : ∀ l ∈ m.links, l.WellNamed)
      (joints : ∀ j ∈ m.joints, IsOwnName j.name) (frames : ∀ f ∈ m.frames, IsOwnName f.name)
      (models : ∀ k ∈ m.models, k.WellNamed)
      (distinct : Distinct m.links ∧ Distinct m.joints ∧ Distinct m.frames ∧ Distinct m.models) :
      m.WellNamed

/-- A model that is read is well named, at every depth. -/
theorem wellNamed_of_ofElement {m : Model} (h : (ofElement e).value = some m) : m.WellNamed := by
  induction e using induction_children generalizing m with
  | h e ih =>
    obtain ⟨name, hname, rfl⟩ := exists_of_ofElement h
    refine .mk _ (isOwnName_of_readFrameName hname) ?_ ?_ ?_ ?_
      ⟨distinct_readAll .., distinct_readAll .., distinct_readAll .., distinct_readAll ..⟩
    · exact forall_mem_readAll fun _ _ _ => Link.wellNamed_of_ofElement
    · exact forall_mem_readAll fun _ _ _ => Joint.isOwnName_of_ofElement
    · exact forall_mem_readAll fun _ _ _ => Frame.isOwnName_of_ofElement
    · exact forall_mem_readAll fun c hc _ => ih c hc

end Model

/-! ### Actors -/

/-- An animation that is read has a name. -/
theorem Animation.name_ne_empty_of_ofElement {a : Animation}
    (h : (ofElement e).value = some a) : a.name ≠ "" := by
  obtain ⟨name, hname, h⟩ := exists_of_value_bind rfl h
  simp only [value_bind] at h
  split at h
  · cases h
  · obtain rfl := Option.some.inj h
    exact ne_empty_of_readName hname

namespace Actor

/-- The names in an actor, and the numbers in its script. -/
structure WellNamed (a : Actor) : Prop where
  name : a.name ≠ ""
  animations : ∀ x ∈ a.animations, x.name ≠ ""
  trajectories : (a.script.trajectories.map Trajectory.id).Nodup
  links : ∀ l ∈ a.links, l.WellNamed
  joints : ∀ j ∈ a.joints, IsOwnName j.name
  distinct : Distinct a.animations ∧ Distinct a.links ∧ Distinct a.joints

/-- An actor that is read is well named. -/
theorem wellNamed_of_ofElement {a : Actor} (h : (ofElement e).value = some a) :
    a.WellNamed := by
  obtain ⟨name, hname, h⟩ := exists_of_value_bind rfl h
  obtain rfl := Option.some.inj h
  refine ⟨ne_empty_of_readName hname, ?_, ?_, ?_, ?_,
    distinct_readAll .., distinct_readAll .., distinct_readAll ..⟩
  · exact forall_mem_readAll fun _ _ _ => Animation.name_ne_empty_of_ofElement
  · -- without a script there are no trajectories
    change ((e.readChildD "script" {} Script.ofElement).value.trajectories.map _).Nodup
    unfold readChildD
    split
    · exact List.nodup_nil
    · exact (Script.valid_ofElement _).distinct
  · exact forall_mem_readAll fun _ _ _ => Link.wellNamed_of_ofElement
  · exact forall_mem_readAll fun _ _ _ => Joint.isOwnName_of_ofElement

end Actor

/-! ### Worlds -/

namespace World

/-- The names in a world. -/
structure WellNamed (w : World) : Prop where
  name : w.name ≠ ""
  models : ∀ m ∈ w.models, m.WellNamed
  frames : ∀ f ∈ w.frames, IsOwnName f.name
  lights : ∀ l ∈ w.lights, l.name ≠ ""
  actors : ∀ a ∈ w.actors, a.WellNamed
  distinct : Distinct w.models ∧ Distinct w.frames ∧ Distinct w.lights ∧ Distinct w.actors

/-- A world that is read is well named. -/
theorem wellNamed_of_ofElement {w : World} (h : (ofElement e).value = some w) :
    w.WellNamed := by
  obtain ⟨name, hname, h⟩ := exists_of_value_bind rfl h
  obtain rfl := Option.some.inj h
  refine ⟨ne_empty_of_readName hname, ?_, ?_, ?_, ?_,
    distinct_readAll .., distinct_readAll .., ?_, distinct_readAll ..⟩
  · exact forall_mem_readAll fun _ _ _ => Model.wellNamed_of_ofElement
  · exact forall_mem_readAll fun _ _ _ => Frame.isOwnName_of_ofElement
  · refine List.forall_mem_map.mpr ?_
    exact forall_mem_readAll fun _ _ _ => Light.name_ne_empty_of_ofElement
  · exact forall_mem_readAll fun _ _ _ => Actor.wellNamed_of_ofElement
  · have hdistinct := distinct_readAll e Light.ofElement
    simpa [Distinct, rebuildScope, Function.comp_def, Named.name] using hdistinct

end World

/-! ### Documents -/

/-- The names in an object that stands alone. -/
def Standalone.WellNamed : Standalone → Prop
  | .model m => m.WellNamed
  | .light l => l.name ≠ ""
  | .actor a => a.WellNamed

namespace Document

/-- The names in a document. -/
structure WellNamed (d : Document) : Prop where
  worlds : ∀ w ∈ d.worlds, w.WellNamed
  distinct : Distinct d.worlds
  content : ∀ x, d.content = some x → x.WellNamed

/-- A document that is read is well named, with or without errors. -/
theorem wellNamed_ofElement (e : Element) : (ofElement e).value.WellNamed where
  worlds w hw := by
    obtain ⟨_, hread⟩ := exists_read_of_world hw
    exact World.wellNamed_of_ofElement hread
  distinct := by
    unfold ofElement
    split
    · exact List.nodup_nil
    · exact distinct_readAll ..
  content x hx := by
    have hread := isRead_of_content hx
    cases x with
    | model m =>
      obtain ⟨_, hread⟩ := hread
      exact Model.wellNamed_of_ofElement hread
    | light l =>
      obtain ⟨_, hread⟩ := hread
      exact Light.name_ne_empty_of_ofElement hread
    | actor a =>
      obtain ⟨_, hread⟩ := hread
      exact Actor.wellNamed_of_ofElement hread

/-- **Whatever is wrong with a text that is markup, the document that is loaded
from it is well named at every depth.** -/
theorem wellNamed_of_load (before : Document) (policy : Policy) {text : String}
    (h : (Element.ofDocument text).isOk = true) :
    (load before policy text).document.WellNamed := by
  cases hroot : Element.ofDocument text with
  | error e =>
    rw [hroot] at h
    cases h
  | ok root =>
    rw [load_of_ok (readDocument_of_ofDocument hroot)]
    exact wellNamed_ofElement root

/-- Of two frames of one name one is kept, and one that is called after the world
is not. -/
theorem wellNamed_of_load_twins :
    let text := "<sdf><world name='w'><frame name='f'/><frame name='world'/>"
      ++ "<frame name='f'/></world><world/></sdf>"
    (Element.ofDocument text).isOk = true ∧
      (load .empty .standard text).errors =
        [.missingAttribute "version" "sdf", .reservedName "frame" "world",
          .duplicateName "frame" "f", .missingAttribute "name" "world"] ∧
      (load .empty .standard text).document.WellNamed :=
  ⟨by decide +kernel, by decide +kernel, wellNamed_of_load .empty .standard (by decide +kernel)⟩

end Document

end Scene

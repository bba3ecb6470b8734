/-
Documents that are written and read back.

What is written of a document that was loaded without errors loads without
errors again, and gives an equal document.  Numbers and poses are required to
read back, and what is not understood but kept must have names that can be
written.

Main statement: `load_toText`.
-/
import Scene.Proofs.Loaded
import Scene.Proofs.Writing.Actor
import Scene.Proofs.Writing.Model

namespace Scene

open Reported Element

variable {policy : Policy}

/-! ### Worlds -/

namespace World

/-- Worlds are compared field by field, with their graphs. -/
theorem beq_iff {w u : World} : (w == u) = true ↔
    w.name = u.name ∧ (w.gravity == u.gravity) = true ∧
      (w.magneticField == u.magneticField) = true ∧ (w.models == u.models) = true ∧
      (w.frames == u.frames) = true ∧ (w.lights == u.lights) = true ∧
      (w.actors == u.actors) = true ∧ (w.graph == u.graph) = true ∧
      (w.unknown == u.unknown) = true := by
  obtain ⟨⟩ := w
  obtain ⟨⟩ := u
  show instBEqWorld.beq _ _ = true ↔ _
  simp [instBEqWorld.beq]

/-- What a world holds reads back. -/
structure ReadsBack (w : World) : Prop where
  gravity : w.gravity.ReadsBack
  magneticField : w.magneticField.ReadsBack
  models : ∀ m ∈ w.models, m.ReadsBack
  frames : ∀ f ∈ w.frames, f.ReadsBack
  lights : ∀ l ∈ w.lights, l.ReadsBack
  actors : ∀ a ∈ w.actors, a.ReadsBack
  unknown : ∀ u ∈ w.unknown, u.WellNamed

/-- The children of a world, in the order in which they are written: what holds
everywhere in it comes before what stands in it. -/
def layout (w : World) : List (String × List Element) :=
  [("gravity", [field "gravity" w.gravity]),
    ("magnetic_field", [field "magnetic_field" w.magneticField]),
    ("model", w.models.map Model.toElement), ("frame", w.frames.map Frame.toElement),
    ("light", w.lights.map Light.toElement), ("actor", w.actors.map Actor.toElement)]

/-- The children of a world are those of its layout, and then the unknown ones. -/
theorem grouped {w : World} (hunknown : ∀ u ∈ w.unknown, u.tag ∉ knownTags) :
    w.toElement.Grouped knownTags w.layout w.unknown where
  children := by simp [toElement, layout, pushValue_eq]
  tags := by
    have hm (m : Model) : m.toElement.tag = "model" := m.headed.tag
    have hf (f : Frame) : f.toElement.tag = "frame" := f.headed.tag
    have hl (l : Light) : l.toElement.tag = "light" := l.headed.tag
    have ha (a : Actor) : a.toElement.tag = "actor" := a.headed.tag
    simp [layout, knownTags, hm, hf, hl, ha]
  nodup := by simp [layout]
  unknown := hunknown

theorem headed (w : World) : w.toElement.Headed "world" [("name", w.name)] where
  tag := by simp [toElement, pushValue_eq]
  attributes := by simp [toElement, pushValue_eq, putAttribute]
  text := by simp [toElement, pushValue_eq]

/-- A valid world can be written. -/
theorem proper {w : World} (hvalid : w.Valid policy) (hback : w.ReadsBack) :
    w.toElement.Proper := by
  refine (grouped hvalid.unknown.unknown).proper w.headed ["name"] (.refl _) (by decide +kernel) ?_
    fun u hu => ⟨hback.unknown u hu, hvalid.unknown.tidy u hu⟩
  simp only [layout, List.forall_mem_cons, List.not_mem_nil, false_implies, implies_true, and_true,
    List.forall_mem_map]
  exact ⟨proper_faithful hback.gravity.faithful,
    proper_faithful hback.magneticField.faithful,
    fun _ m hm => Model.proper (hvalid.models m hm) (hback.models m hm), fun _ f _ => f.proper,
    fun _ l hl => Light.proper (hback.lights l hl),
    fun _ a ha => Actor.proper (hvalid.actors a ha) (hback.actors a ha)⟩

/-- **A world is read back as an equal one.** -/
theorem exists_ofElement {w : World} (hvalid : w.Valid policy) (hback : w.ReadsBack) :
    ∃ u, (ofElement w.toElement).Gives policy (some u) ∧ (w == u) = true := by
  have hgrouped := grouped hvalid.unknown.unknown
  obtain ⟨hmdistinct, hfdistinct, hldistinct, hadistinct⟩ := hvalid.distinct
  obtain ⟨models, hmodels, hmeq⟩ : ∃ ms, (w.toElement.readAll Model.ofElement).Gives policy ms ∧
      List.Forall₂ (fun m k => (m == k) = true) w.models ms :=
    hgrouped.exists_readAll (by simp [layout, Named.kind]) (fun m k hmk => (Model.beq_iff.mp hmk).1)
      hmdistinct fun m hm => Model.exists_ofElement (hvalid.models m hm) (hback.models m hm)
  obtain ⟨frames, hframes, hfeq⟩ : ∃ fs, (w.toElement.readAll Frame.ofElement).Gives policy fs ∧
      List.Forall₂ (fun f g => (f == g) = true) w.frames fs :=
    hgrouped.exists_readAll (by simp [layout, Named.kind]) (fun f g hfg => (Frame.beq_iff.mp hfg).1)
      hfdistinct fun f hf => Frame.exists_ofElement (hvalid.frames f hf) (hback.frames f hf)
  have hlamps : ("light", w.lights.map Light.toElement) ∈ w.layout := by simp [layout]
  obtain ⟨lights, hlights, hleq⟩ : ∃ ls, (w.toElement.readAll Light.ofElement).Gives policy ls ∧
      List.Forall₂ Light.Alike w.lights ls :=
    hgrouped.exists_readAll hlamps (fun l k hlk => (Light.beq_iff.mp hlk).1) hldistinct
      fun l hl => by
      obtain ⟨k, hk, -, heq⟩ := Light.exists_ofElement (hvalid.lights l hl).1 (hback.lights l hl)
      exact ⟨k, hk, heq⟩
  obtain ⟨actors, hactors, haeq⟩ : ∃ xs, (w.toElement.readAll Actor.ofElement).Gives policy xs ∧
      List.Forall₂ (fun a b => (a == b) = true) w.actors xs :=
    hgrouped.exists_readAll (by simp [layout, Named.kind]) (fun a b hab => (Actor.beq_iff.mp hab).1)
      hadistinct fun a ha => Actor.exists_ofElement (hvalid.actors a ha) (hback.actors a ha)
  rw [← beq_list_iff] at hmeq hfeq haeq
  -- lights are equal up to the owner, which is the world again
  have howned : (w.lights == lights.map fun l => { l with owner := worldFrame }) = true := by
    refine beq_map_of_forall₂ (fun l k howner hlk => ?_) (fun l hl => (hvalid.lights l hl).2) hleq
    exact howner ▸ hlk
  -- the graph of the new world is that of its children
  let u : World :=
    { w with
      models, frames, lights := lights.map fun l => { l with owner := worldFrame }, actors
      graph := .world }
  obtain ⟨herrors, hgraph⟩ := draft_of_beq (u := u) hmeq hfeq hvalid.errors
  rw [← hvalid.graph] at hgraph
  refine ⟨u.rebuildScope.1, ?_, beq_iff.mpr ⟨rfl, hback.gravity.faithful.refl,
    hback.magneticField.faithful.refl, hmeq, hfeq, howned, haeq, hgraph,
    beq_self_eq_true w.unknown⟩⟩
  simp only [ofElement, gives_bind]
  refine ⟨_, w.headed.gives_readName hvalid.name, ?_⟩
  simp only [gives_bind, gives_pure]
  refine ⟨_, hgrouped.gives_unknownChildren hvalid.unknown,
    _, hgrouped.gives_readValueD (by simp [layout]) hback.gravity.faithful,
    _, hgrouped.gives_readValueD (by simp [layout]) hback.magneticField.faithful,
    models, hmodels, frames, hframes, lights, hlights, actors, hactors, ?_⟩
  simp only [rebuildScope, gives_failAll]
  exact ⟨(), herrors, rfl⟩

end World

/-! ### Documents -/

/-- What stands alone reads back. -/
def Standalone.ReadsBack : Standalone → Prop
  | .model m => m.ReadsBack
  | .light l => l.ReadsBack
  | .actor a => a.ReadsBack

namespace Document

/-- The model that stands alone, if it is one. -/
def modelAlone : Option Standalone → List Model
  | some (.model m) => [m]
  | _ => []

/-- The light that stands alone, if it is one. -/
def lightAlone : Option Standalone → List Light
  | some (.light l) => [l]
  | _ => []

/-- The actor that stands alone, if it is one. -/
def actorAlone : Option Standalone → List Actor
  | some (.actor a) => [a]
  | _ => []

/-- What a document holds reads back: all numbers and poses in it, and what is
kept of unknown tags. -/
structure ReadsBack (d : Document) : Prop where
  worlds : ∀ w ∈ d.worlds, w.ReadsBack
  content : ∀ x, d.content = some x → x.ReadsBack
  unknown : ∀ u ∈ d.unknown, u.WellNamed

/-- The children of a document: its worlds, or the object that stands alone
under the tag of its kind. -/
def layout (d : Document) : List (String × List Element) :=
  [("world", d.worlds.map World.toElement), ("model", (modelAlone d.content).map Model.toElement),
    ("light", (lightAlone d.content).map Light.toElement),
    ("actor", (actorAlone d.content).map Actor.toElement)]

/-- The children of a document are those of its layout, and then the unknown
ones. -/
theorem grouped {d : Document} (hunknown : ∀ u ∈ d.unknown, u.tag ∉ knownTags) :
    d.toElement.Grouped knownTags d.layout d.unknown where
  children := by
    obtain ⟨version, worlds, content, unknown⟩ := d
    rcases content with - | ⟨m | l | a⟩
    · simp [toElement, layout, modelAlone, lightAlone, actorAlone]
    · simp [toElement, layout, modelAlone, lightAlone, actorAlone, Standalone.toElement]
    · simp [toElement, layout, modelAlone, lightAlone, actorAlone, Standalone.toElement]
    · simp [toElement, layout, modelAlone, lightAlone, actorAlone, Standalone.toElement]
  tags := by
    have hw (w : World) : w.toElement.tag = "world" := w.headed.tag
    have hm (m : Model) : m.toElement.tag = "model" := m.headed.tag
    have hl (l : Light) : l.toElement.tag = "light" := l.headed.tag
    have ha (a : Actor) : a.toElement.tag = "actor" := a.headed.tag
    simp [layout, knownTags, hw, hm, hl, ha]
  nodup := by simp [layout]
  unknown := hunknown

/-- The root of a document has its version. -/
theorem headed (d : Document) : d.toElement.Headed "sdf" [("version", d.version)] where
  tag := by simp [toElement]
  attributes := by simp [toElement, putAttribute]
  text := by simp [toElement]

/-- A valid document can be written. -/
theorem proper {d : Document} (hvalid : d.Valid policy) (hback : d.ReadsBack) :
    d.toElement.Proper := by
  refine (grouped hvalid.unknown.unknown).proper d.headed ["version"] (.refl _)
    (by decide +kernel) ?_
    fun u hu => ⟨hback.unknown u hu, hvalid.unknown.tidy u hu⟩
  have hcontent := hvalid.content
  have hreads := hback.content
  simp only [layout, List.forall_mem_cons, List.not_mem_nil, false_implies, implies_true, and_true,
    List.forall_mem_map]
  refine ⟨fun _ w hw => World.proper (hvalid.worlds w hw) (hback.worlds w hw), ?_⟩
  rcases hcase : d.content with - | ⟨m | l | a⟩
  · simp [modelAlone, lightAlone, actorAlone]
  · have hproper := Model.proper (hcontent _ hcase) (hreads _ hcase)
    simp [modelAlone, lightAlone, actorAlone, hproper]
  · have hproper := Light.proper (hreads _ hcase)
    simp [modelAlone, lightAlone, actorAlone, hproper]
  · have hproper := Actor.proper (hcontent _ hcase) (hreads _ hcase)
    simp [modelAlone, lightAlone, actorAlone, hproper]

/-- What stands alone is read back as an equal object of the same kind. -/
theorem exists_content {d : Document} (hvalid : d.Valid policy) (hback : d.ReadsBack) :
    ∃ content : Option Standalone, (d.content == content) = true ∧
      (content = none ↔ d.content = none) ∧
      (d.toElement.readAll Model.ofElement).Gives policy (modelAlone content) ∧
      (d.toElement.readAll Light.ofElement).Gives policy (lightAlone content) ∧
      (d.toElement.readAll Actor.ofElement).Gives policy (actorAlone content) := by
  have hgrouped := grouped hvalid.unknown.unknown
  have hmodels : d.toElement.childrenNamed "model" = (modelAlone d.content).map Model.toElement :=
    hgrouped.childrenNamed (by simp [layout])
  have hlights : d.toElement.childrenNamed "light" = (lightAlone d.content).map Light.toElement :=
    hgrouped.childrenNamed (by simp [layout])
  have hactors : d.toElement.childrenNamed "actor" = (actorAlone d.content).map Actor.toElement :=
    hgrouped.childrenNamed (by simp [layout])
  -- the children of two of the three kinds are missing
  have hnone {α : Type} [Named α] {read : Element → Reported (Option α)}
      (h : d.toElement.childrenNamed (Named.kind α) = []) :
      (d.toElement.readAll read).Gives policy [] :=
    gives_readAll (h ▸ .nil) (by simp)
  have hone {α : Type} [Named α] {read : Element → Reported (Option α)} {e : Element} {x : α}
      (h : d.toElement.childrenNamed (Named.kind α) = [e]) (hx : (read e).Gives policy (some x)) :
      (d.toElement.readAll read).Gives policy [x] :=
    gives_readAll (h ▸ .cons hx .nil) (by simp)
  rcases hcase : d.content with - | ⟨m | l | a⟩
  · rw [hcase] at hmodels hlights hactors
    exact ⟨none, rfl, Iff.rfl, hnone hmodels, hnone hlights, hnone hactors⟩
  · rw [hcase] at hmodels hlights hactors
    obtain ⟨k, hk, heq⟩ := Model.exists_ofElement (hvalid.content _ hcase) (hback.content _ hcase)
    exact ⟨some (.model k), heq, by simp, hone hmodels hk, hnone hlights, hnone hactors⟩
  · rw [hcase] at hmodels hlights hactors
    obtain ⟨hlight, howner⟩ := hvalid.content _ hcase
    obtain ⟨k, hk, howner', heq⟩ := Light.exists_ofElement hlight (hback.content _ hcase)
    have hsame : { k with owner := l.owner } = k := by
      rw [howner, ← howner']
    exact ⟨some (.light k), hsame ▸ heq, by simp, hnone hmodels, hone hlights hk, hnone hactors⟩
  · rw [hcase] at hmodels hlights hactors
    obtain ⟨b, hb, heq⟩ := Actor.exists_ofElement (hvalid.content _ hcase) (hback.content _ hcase)
    exact ⟨some (.actor b), heq, by simp, hnone hmodels, hnone hlights, hone hactors hb⟩

/-- What stands alone is found under exactly one of the three tags. -/
theorem toList_eq_alone (content : Option Standalone) :
    (modelAlone content).map .model ++ (lightAlone content).map .light
      ++ (actorAlone content).map .actor = content.toList := by
  rcases content with - | ⟨m | l | a⟩ <;> rfl

/-- The version is read back. -/
theorem gives_readVersion (d : Document) : (readVersion d.toElement).Gives policy d.version := by
  have hversion : d.toElement.attribute? "version" = some d.version := d.headed.attribute?
  simp only [readVersion, hversion]
  -- an unknown version is remarked on only
  split
  · simp only [gives_bind, gives_pure]
    exact ⟨(), gives_remark, trivial⟩
  · exact gives_pure.mpr rfl

/-- **A document is read back as an equal one.** -/
theorem exists_ofElement {d : Document} (hvalid : d.Valid policy) (hback : d.ReadsBack) :
    ∃ r, (ofElement d.toElement).Gives policy r ∧ (d == r) = true := by
  have hgrouped := grouped hvalid.unknown.unknown
  obtain ⟨worlds, hworlds, hweq⟩ : ∃ ws, (d.toElement.readAll World.ofElement).Gives policy ws ∧
      List.Forall₂ (fun w u => (w == u) = true) d.worlds ws :=
    hgrouped.exists_readAll (by simp [layout, Named.kind]) (fun w u hwu => (World.beq_iff.mp hwu).1)
      hvalid.distinct fun w hw => World.exists_ofElement (hvalid.worlds w hw) (hback.worlds w hw)
  obtain ⟨content, hceq, hnone, hmodels, hlights, hactors⟩ := exists_content hvalid hback
  rw [← beq_list_iff] at hweq
  refine ⟨{ d with worlds, content }, ?_, ?_⟩
  · have htag : ¬ d.toElement.tag ≠ tag := by
      rw [d.headed.tag]
      decide
    unfold ofElement
    rw [if_neg htag]
    simp only [gives_bind, gives_chooseContent, gives_pure]
    refine ⟨d.version, gives_readVersion d, d.unknown,
      hgrouped.gives_unknownChildren hvalid.unknown, worlds, hworlds, _, hmodels, _, hlights, _,
      hactors, content, ⟨?_, toList_eq_alone content⟩, rfl⟩
    rw [toList_eq_alone]
    -- worlds and an object that stands alone were not found together before
    rcases hvalid.apart with hnoworlds | hnocontent
    · rw [hnoworlds, beq_list_iff, List.forall₂_nil_left_iff] at hweq
      exact .inl hweq
    · exact .inr (by rw [hnone.mpr hnocontent]; rfl)
  · show instBEqDocument.beq _ _ = true
    obtain ⟨⟩ := d
    simp only [instBEqDocument.beq, Bool.and_eq_true]
    exact ⟨beq_self_eq_true _, hweq, hceq, beq_self_eq_true _⟩

/-! ### Loading what was written -/

/-- A valid document is loaded again from its text. -/
theorem load_toText_of_valid {d : Document} (hvalid : d.Valid policy) (hback : d.ReadsBack)
    (before : Document) :
    (load before policy d.toText).errors = [] ∧
      (d == (load before policy d.toText).document) = true := by
  obtain ⟨r, hr, heq⟩ := exists_ofElement hvalid hback
  have hload : (load before policy d.toText).errors = [] ∧
      (load before policy d.toText).document = r := load_toDocument (proper hvalid hback) hr
  exact ⟨hload.1, by rwa [hload.2]⟩

/-- **Documents survive writing.**  If a text loads without errors under a
policy, then what is written of the document loads without errors under it, in
place of whatever document, and gives an equal one. -/
theorem load_toText {before : Document} {text : String}
    (h : (load before policy text).errors = [])
    (hback : (load before policy text).document.ReadsBack) (before' : Document) :
    (load before' policy (load before policy text).document.toText).errors = [] ∧
    ((load before policy text).document ==
      (load before' policy (load before policy text).document.toText).document) = true :=
  load_toText_of_valid (valid_of_load h) hback before'

/-- All that the arm is made of reads back. -/
theorem readsBack_armDocument : armDocument.ReadsBack := by
  have haxis : ({ Axis.standard with owner := "wrist" } : Axis Float).ReadsBack := by
    refine ⟨⟨?_, ?_, ?_⟩, ?_, ?_, ?_, ?_, ?_, ?_, ?_, ?_, ?_, ?_⟩
    all_goals decide +kernel
  have hsilent : ({} : Placement).ReadsBack := fun h => absurd h (by decide +kernel)
  have hlink (name : String) : ({ name } : Link).ReadsBack :=
    ⟨hsilent, by simp, by simp, by simp, by simp, by simp⟩
  have hlinks : ∀ l ∈ armModel.links, l.ReadsBack :=
    List.forall_mem_cons.mpr ⟨hlink "base", List.forall_mem_singleton.mpr (hlink "hand")⟩
  have hjoints : ∀ j ∈ armModel.joints, j.ReadsBack := by
    refine List.forall_mem_singleton.mpr ⟨hsilent, ?_⟩
    rintro _ ⟨⟩
    exact haxis
  have hmodel : armModel.ReadsBack :=
    ⟨armModel, ⟨hsilent, hlinks, hjoints, List.forall_mem_nil _, List.forall_mem_nil _⟩,
      List.forall_mem_nil _⟩
  refine ⟨List.forall_mem_nil _, ?_, List.forall_mem_nil _⟩
  rintro _ ⟨⟩
  exact hmodel

/-- The arm is loaded, written, and loaded again as an equal one. -/
theorem load_toText_arm :
    (load .empty .standard armElement.toDocument).errors = [] ∧
      (load .empty .standard armElement.toDocument).document = armDocument ∧
      (load .empty .standard armDocument.toText).errors = [] ∧
      (armDocument == (load .empty .standard armDocument.toText).document) = true := by
  obtain ⟨herrors, hdocument⟩ := load_armElement
  have hback : (load .empty .standard armElement.toDocument).document.ReadsBack :=
    hdocument ▸ readsBack_armDocument
  have hagain := load_toText herrors hback .empty
  rw [hdocument] at hagain
  exact ⟨herrors, hdocument, hagain⟩

end Document

end Scene

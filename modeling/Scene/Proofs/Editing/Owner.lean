/-
Owners under editing.

What a link holds, the axis of a joint and the lights of a world each keep the
name of their owner.  A world goes by one name with all that it holds, so there
the copy has to be right once; links and joints can be renamed.  How a light came
to have another owner before it was added does not matter, since an addition
writes the name anew.

For links the argument is that of `Link.Made.owns`.  Here it is carried out for
joints and for worlds: one edit keeps the names right, so they are right however
the object came about.  Among the edits of a world are those of models, frames and
actors in place, and for them there is nothing to show except that they leave the
lights alone.

A document that was loaded is where most objects come from.  All links and joints
in it, in whatever model or actor, were read by themselves, and so were its worlds.

Main statement: `owners_current`.
-/
import Scene.Proofs.Editing.Link
import Scene.Proofs.Editing.World
import Scene.Proofs.Reading.Origin

namespace Scene

open Reported

/-! ### Joints -/

namespace Joint

/-- What can be done to a joint. -/
inductive Edit
  | rename (name : String)
  | setType (type : JointType)
  | setParent (parent : String)
  | setChild (child : String)
  | setPlacement (placement : Placement)
  /-- Give it an axis, which may be that of another joint, or take it away. -/
  | setAxis (axis : Option (Axis Float))

/-- The joint after an edit. -/
def edit (j : Joint) : Edit → Joint
  | .rename name => j.rename name
  | .setType type => { j with type }
  | .setParent parent => { j with parent }
  | .setChild child => { j with child }
  | .setPlacement placement => { j with placement }
  | .setAxis axis => j.setAxis axis

/-- Joints as they come about: they are new or were read, and then edited. -/
inductive Made : Joint → Prop
  | new (name : String) (type : JointType) (parent child : String) :
      Made { name, type, parent, child }
  | read {e : Element} {j : Joint} : (ofElement e).value = some j → Made j
  | edit {j : Joint} (e : Edit) : Made j → Made (j.edit e)

/-- The axis of a joint, if it has one, knows the name of the joint. -/
def Owns (j : Joint) : Prop := ∀ a, j.axis = some a → a.owner = j.name

theorem owns_adopt (j : Joint) : j.adopt.Owns := by
  intro a ha
  obtain ⟨_, -, rfl⟩ := Option.map_eq_some_iff.mp ha
  rfl

/-- A joint that was read has adopted its axis. -/
theorem owns_of_ofElement {e : Element} {j : Joint} (h : (ofElement e).value = some j) :
    j.Owns := by
  obtain ⟨_, -, rfl⟩ := exists_of_ofElement h
  exact owns_adopt _

theorem Owns.edit {j : Joint} (h : j.Owns) (e : Edit) : (j.edit e).Owns := by
  cases e with
  | rename name => exact owns_adopt _
  | setType type => exact h
  | setParent parent => exact h
  | setChild child => exact h
  | setPlacement placement => exact h
  | setAxis axis => exact owns_adopt _

theorem Made.owns {j : Joint} (h : j.Made) : j.Owns := by
  induction h with
  | new => exact nofun
  | read h => exact owns_of_ofElement h
  | edit e _ ih => exact ih.edit e

end Joint

/-! ### Worlds -/

namespace World

/-- What can be done to a world: to the rows of its children, to one of these in
place, and to the world itself. -/
inductive Change
  | edit (e : Edit)
  | setModel (i : Nat) (m : Model)
  | setFrame (i : Nat) (f : Frame)
  /-- Change all of a light but its owner. -/
  | setLight (i : Nat) (l : Light)
  | setActor (i : Nat) (a : Actor)
  | rename (name : String)
  | setGravity (gravity : Vec3 Float)
  | setMagneticField (magneticField : Vec3 Float)
  | rebuild

/-- The world after a change, whether or not an addition was refused. -/
def change (w : World) : Change → World
  | .edit e => w.edit e
  | .setModel i m => { w with models := w.models.set i m }
  | .setFrame i f => { w with frames := w.frames.set i f }
  | .setLight i l =>
    { w with lights := w.lights.modify i fun old => { l with owner := old.owner } }
  | .setActor i a => { w with actors := w.actors.set i a }
  | .rename name => { w with name }
  | .setGravity gravity => { w with gravity }
  | .setMagneticField magneticField => { w with magneticField }
  | .rebuild => w.rebuild.1

/-- Worlds as they come about: they are new or were read, and then changed. -/
inductive Made : World → Prop
  | new (name : String) : Made { name }
  | read {e : Element} {w : World} : (ofElement e).value = some w → Made w
  | change {w : World} (c : Change) : Made w → Made (w.change c)

/-- Every light of a world knows that it belongs to a world. -/
def Owns (w : World) : Prop := ∀ l ∈ w.lights, l.owner = worldFrame

theorem owns_of_ofElement {e : Element} {w : World} (h : (ofElement e).value = some w) :
    w.Owns := by
  obtain ⟨name, -, h⟩ := exists_of_value_bind rfl h
  obtain rfl := Option.some.inj h
  -- the lights of a world are told so once all of it has been read
  exact List.forall_mem_map.mpr fun _ _ => rfl

theorem lights_addWith {α : Type} [Named α] {w added : World} (item : α)
    (h : added.lights = w.lights) : (w.addWith item added).1.lights = w.lights := by
  unfold addWith
  split
  · rfl
  · exact h

/-- An edit of the rows of children leaves no light with another owner. -/
theorem Owns.edit {w : World} (h : w.Owns) (e : Edit) : (w.edit e).Owns := by
  cases e with
  | add c =>
    cases c with
    | model m =>
      -- an addition that is refused changes nothing, and one that is not leaves the lights
      have hlights : (w.addModel m).1.lights = w.lights := lights_addWith m rfl
      exact fun l hl => h l (hlights ▸ hl)
    | frame f =>
      have hlights : (w.addFrame f).1.lights = w.lights := lights_addWith f rfl
      exact fun l hl => h l (hlights ▸ hl)
    | light l => exact forall_mem_addUnique h rfl
    | actor a => exact h
  | clearModels => exact h
  | clearFrames => exact h
  | clearLights => exact List.forall_mem_nil _
  | clearActors => exact h

theorem Owns.change {w : World} (h : w.Owns) (c : Change) : (w.change c).Owns := by
  cases c with
  | edit e => exact h.edit e
  | setModel i m => exact h
  | setFrame i f => exact h
  | setLight i l => exact forall_mem_modify h fun _ hold => hold
  | setActor i a => exact h
  | rename name => exact h
  | setGravity gravity => exact h
  | setMagneticField magneticField => exact h
  | rebuild => exact h

theorem Made.owns {w : World} (h : w.Made) : w.Owns := by
  induction h with
  | new name => exact List.forall_mem_nil _
  | read h => exact owns_of_ofElement h
  | change c _ ih => exact ih.change c

end World

/-! ### Documents -/

theorem Model.made_of_ofElement {e : Element} {m : Model} (h : (ofElement e).value = some m) :
    (∀ l ∈ m.links, l.Made) ∧ ∀ j ∈ m.joints, j.Made := by
  obtain ⟨_, -, rfl⟩ := exists_of_ofElement h
  exact ⟨Element.forall_mem_readAll fun _ _ _ => .read,
    Element.forall_mem_readAll fun _ _ _ => .read⟩

theorem Actor.made_of_ofElement {e : Element} {a : Actor} (h : (ofElement e).value = some a) :
    (∀ l ∈ a.links, l.Made) ∧ ∀ j ∈ a.joints, j.Made := by
  obtain ⟨name, -, h⟩ := exists_of_value_bind rfl h
  obtain rfl := Option.some.inj h
  exact ⟨Element.forall_mem_readAll fun _ _ _ => .read,
    Element.forall_mem_readAll fun _ _ _ => .read⟩

namespace Document

/-- All worlds, links and joints in a document, at any depth, came about as they
do. -/
structure HoldsMade (d : Document) : Prop where
  worlds : ∀ w ∈ d.worlds, w.Made
  models : ∀ m, d.Holds m → (∀ l ∈ m.links, l.Made) ∧ ∀ j ∈ m.joints, j.Made
  actors : ∀ a, d.HoldsActor a → (∀ l ∈ a.links, l.Made) ∧ ∀ j ∈ a.joints, j.Made

theorem holdsMade_ofElement (e : Element) : (ofElement e).value.HoldsMade where
  worlds w hw := by
    obtain ⟨_, hread⟩ := exists_read_of_world hw
    exact .read hread
  models m hm := by
    obtain ⟨_, hread⟩ := exists_read_of_holds hm
    exact Model.made_of_ofElement hread
  actors a ha := by
    obtain ⟨_, hread⟩ := exists_read_of_holdsActor ha
    exact Actor.made_of_ofElement hread

end Document

/-! ### Links, joints and worlds -/

/-- **Owners are up to date.**  However a link came about, everything in it has
the name of the link for its owner; so has the axis of a joint that of the joint;
and every light of a world has that of a world.  All that is in a document that was
loaded came about in this way, so what is done to it later keeps the owners right. -/
theorem owners_current :
    (∀ l : Link, l.Made →
      (∀ c ∈ l.collisions, c.owner = l.name) ∧ (∀ v ∈ l.visuals, v.owner = l.name) ∧
      ∀ x ∈ l.lights, x.owner = l.name) ∧
    (∀ j : Joint, j.Made → ∀ a, j.axis = some a → a.owner = j.name) ∧
    (∀ w : World, w.Made → ∀ x ∈ w.lights, x.owner = "world") ∧
    ∀ before policy text, (Element.ofDocument text).isOk = true →
      (Document.load before policy text).document.HoldsMade := by
  refine ⟨fun l hl => ?_, fun j hj => hj.owns, fun w hw => hw.owns, ?_⟩
  · obtain ⟨hcollisions, hvisuals, hlights⟩ := hl.owns
    exact ⟨hcollisions, hvisuals, hlights⟩
  -- what was there before the text does not matter once it is markup
  · intro before policy text h
    obtain ⟨root, hroot⟩ := Document.exists_load_eq before policy h
    rw [hroot]
    exact Document.holdsMade_ofElement root

/-- A new link that is given the collision of another link, and is then renamed. -/
def renamedLink : Link :=
  (Link.edit { name := "arm" } (.addCollision { name := "box", owner := "leg" })).edit
    (.rename "hand")

/-- A new joint that is given the axis of another joint, and is then renamed. -/
def renamedJoint : Joint :=
  (Joint.edit { name := "knee", type := .revolute, parent := "leg", child := "arm" }
    (.setAxis (some { Axis.standard with owner := "hip" }))).edit (.rename "wrist")

/-- A new world that is given the light of a link, which is then changed in place. -/
def litWorld : World :=
  (World.change { name := "yard" } (.edit (.add (.light { name := "lamp", owner := "hand" })))).change
    (.setLight 0 { name := "sun", owner := "arm" })

/-- The joint of the arm, with the axis that was read with it, under a new name. -/
theorem owners_current_renamed :
    renamedLink.Made ∧ renamedLink.collisions.length = 1 ∧
      (∀ c ∈ renamedLink.collisions, c.owner = "hand") ∧
    renamedJoint.Made ∧ (∃ a, renamedJoint.axis = some a ∧ a.owner = "wrist") ∧
    litWorld.Made ∧ litWorld.lights.length = 1 ∧ (∀ x ∈ litWorld.lights, x.owner = "world") ∧
    (Element.ofDocument Document.armElement.toDocument).isOk = true ∧
    ∀ j ∈ Document.armModel.joints, ∀ a, (j.rename "elbow").axis = some a → a.owner = "elbow" := by
  have hlink : renamedLink.Made := ((Link.Made.new "arm").edit _).edit _
  have hjoint : renamedJoint.Made := ((Joint.Made.new "knee" .revolute "leg" "arm").edit _).edit _
  have hworld : litWorld.Made := ((World.Made.new "yard").change _).change _
  obtain ⟨hlinks, hjoints, hworlds, hload⟩ := owners_current
  refine ⟨hlink, rfl, (hlinks renamedLink hlink).1, hjoint,
    ⟨_, rfl, hjoints renamedJoint hjoint _ rfl⟩, hworld, rfl, hworlds litWorld hworld,
    Document.isOk_armElement, fun j hj => ?_⟩
  have harm := (hload .empty .standard _ Document.isOk_armElement).models _ Document.holds_armModel
  exact hjoints _ ((harm.2 j hj).edit (.rename "elbow"))

end Scene

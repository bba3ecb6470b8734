/-
Documents under editing.

A document that is read holds worlds or one object that stands alone, never
both.  That is so whatever is wrong with the text, and whatever was there before
it.  Editing does not see to it: a world is added without a look at the object,
and the object is set without a look at the worlds.

An edit that puts one beside the other is said to mix.  In a document that does
not hold both yet, mixing is exactly what makes it hold both
(`Apart.apart_edit_iff`); so worlds and object are kept apart throughout a run
exactly if no edit of it mixes.

Main statement: `apart_throughout_iff`.
-/
import Mathlib.Data.List.Infix
import Scene.Proofs.Editing.World
import Scene.Proofs.Markup.Reproduced
import Scene.Proofs.Tolerated
import Scene.Writing.Document

namespace Scene.Document

open Reported

/-! ### Edits -/

/-- Make an object the one that stands alone. -/
def stand (d : Document) : Standalone → Document
  | .model m => d.setModel m
  | .light l => d.setLight l
  | .actor a => d.setActor a

/-- What can be done to a document. -/
inductive Edit
  | load (policy : Policy) (text : String)
  | addWorld (w : World)
  | clearWorlds
  | stand (x : Standalone)

/-- The document after an edit. -/
def edit (d : Document) : Edit → Document
  | .load policy text => (d.load policy text).document
  | .addWorld w => (d.addWorld w).1
  | .clearWorlds => d.clearWorlds
  | .stand x => d.stand x

/-- The document after edits, whether or not some of them were refused. -/
def editAll (d : Document) (edits : List Edit) : Document := edits.foldl edit d

/-- The document does not hold worlds and an object that stands alone. -/
def Apart (d : Document) : Prop := d.worlds = [] ∨ d.content = none

/-- The edit puts worlds and an object that stands alone beside each other. -/
def Mixes (d : Document) : Edit → Prop
  | .addWorld _ => d.content ≠ none
  | .stand _ => d.worlds ≠ []
  | .load .. | .clearWorlds => False

variable {d : Document}

/-! ### Reading -/

theorem apart_chooseContent (worlds : List World) (found : List Standalone) :
    worlds = [] ∨ (chooseContent worlds found).value = none := by
  unfold chooseContent
  split
  · exact .inr rfl
  -- an object is only taken where there are no worlds; to have both is an error
  · next hboth =>
    by_cases hw : worlds = []
    · exact .inl hw
    · have hfound : found = [] := by simpa [hw] using hboth
      subst hfound
      exact .inr rfl

/-- Whatever the content of an element, worlds and object are not read both. -/
theorem apart_ofElement (e : Element) : (ofElement e).value.Apart := by
  unfold ofElement
  split
  · exact .inl rfl
  · exact apart_chooseContent _ _

/-- A text that is markup gives such a document in place of any. -/
theorem apart_load_of_ok {policy : Policy} {text : String} {root : Element}
    (h : Element.ofDocument text = .ok root) : (d.load policy text).document.Apart := by
  rw [load_of_ok (Element.readDocument_of_ofDocument h)]
  exact apart_ofElement root

theorem Apart.load (h : d.Apart) (policy : Policy) (text : String) :
    (d.load policy text).document.Apart := by
  -- what is no markup leaves the document as it was
  cases hread : (Markup.readDocument text).value with
  | error e => rwa [load_of_error hread]
  | ok root =>
    rw [load_of_ok hread]
    exact apart_ofElement root

/-! ### One edit -/

theorem content_stand (d : Document) (x : Standalone) : (d.stand x).content = some x := by
  cases x with
  | model m => rfl
  | light l => rfl
  | actor a => rfl

theorem worlds_stand (d : Document) (x : Standalone) : (d.stand x).worlds = d.worlds := by
  cases x with
  | model m => rfl
  | light l => rfl
  | actor a => rfl

/-- An addition gives an error exactly if the name is taken, and then nothing
else. -/
theorem addWorld_eq (d : Document) (w : World) : d.addWorld w =
    if w.name ∈ d.worlds.map World.name then
      (d, [.duplicateName "world" w.name])
    else
      ({ d with worlds := d.worlds ++ [w] }, []) := by
  have hunique := addUnique_eq d.worlds w
  unfold addWorld
  by_cases htaken : w.name ∈ d.worlds.map World.name
  · rw [if_pos htaken, hunique.trans (if_pos htaken)]
    rfl
  · rw [if_neg htaken, hunique.trans (if_neg htaken)]

/-- There are worlds after the addition of one, even if it was refused. -/
theorem worlds_addWorld_ne_nil (d : Document) (w : World) : (d.addWorld w).1.worlds ≠ [] := by
  rw [addWorld_eq]
  split
  -- it was refused because of another world of its name
  · next htaken =>
    obtain ⟨other, hother, -⟩ := List.mem_map.mp htaken
    exact List.ne_nil_of_mem hother
  · simp

/-- Exactly a mixing edit brings worlds and object together. -/
theorem Apart.apart_edit_iff (h : d.Apart) (e : Edit) : (d.edit e).Apart ↔ ¬ d.Mixes e := by
  cases e with
  | load policy text => exact iff_of_true (h.load policy text) id
  | clearWorlds => exact iff_of_true (.inl rfl) id
  | addWorld w =>
    have hcontent : (d.addWorld w).1.content = d.content := rfl
    simp [edit, Apart, Mixes, worlds_addWorld_ne_nil, hcontent]
  | stand x => simp [edit, Apart, Mixes, content_stand, worlds_stand]

/-! ### Many edits -/

theorem editAll_concat (d : Document) (past : List Edit) (e : Edit) :
    d.editAll (past ++ [e]) = (d.editAll past).edit e := by
  rw [editAll, List.foldl_append]
  rfl

/-- Worlds and object are apart after each edit of a run exactly if none of the
edits mixes. -/
theorem Apart.throughout_iff (h : d.Apart) (edits : List Edit) :
    (∀ past, past <+: edits → (d.editAll past).Apart) ↔
      ∀ past e, past ++ [e] <+: edits → ¬ (d.editAll past).Mixes e := by
  constructor
  · intro hapart past e hrun
    have hbefore : (d.editAll past).Apart := hapart past ((List.prefix_append _ _).trans hrun)
    have hafter := hapart _ hrun
    rw [editAll_concat] at hafter
    exact (hbefore.apart_edit_iff e).mp hafter
  · intro hmixes past
    -- the run is built up edit by edit, from the first one on
    induction past using List.reverseRecOn with
    | nil => exact fun _ => h
    | append_singleton past e ih =>
      intro hrun
      rw [editAll_concat]
      exact ((ih ((List.prefix_append _ _).trans hrun)).apart_edit_iff e).mpr (hmixes past e hrun)

/-- **When worlds and an object that stands alone exclude each other.**  They do
after a text was loaded, whatever was there before.  In a new document they go on
to do so throughout a run of edits exactly if the run never adds a world to a
document with an object, and never gives an object to one with worlds. -/
theorem apart_throughout_iff (edits : List Edit) :
    (∀ d policy text root, Element.ofDocument text = .ok root →
      (load d policy text).document.Apart) ∧
    ((∀ past, past <+: edits → (empty.editAll past).Apart) ↔
      ∀ past e, past ++ [e] <+: edits → ¬ (empty.editAll past).Mixes e) := by
  have hempty : empty.Apart := .inl rfl
  exact ⟨fun _ _ _ _ h => apart_load_of_ok h, hempty.throughout_iff edits⟩

/-- A document that a world and then a lamp was put into. -/
def worldAndLamp : Document :=
  empty.editAll [.addWorld { name := "w" }, .stand (.light { name := "sun" })]

/-- Neither the world nor the lamp is refused, and the element of both is read
without the lamp, and with an error. -/
theorem not_apart_worldAndLamp :
    ¬ worldAndLamp.Apart ∧
      (ofElement worldAndLamp.toElement).value.content.isNone = true ∧
      ((ofElement worldAndLamp.toElement).errors .standard).map Error.code = [.elementInvalid] := by
  refine ⟨?_, by decide +kernel, by decide +kernel⟩
  rintro (hworlds | hcontent)
  · cases hworlds
  · cases hcontent

end Scene.Document

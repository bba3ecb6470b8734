/-
The trees that documents stand for.

A tree is built of elements that begin without text and children, and that only
ever get children and trimmed texts.  So what holds of elements as they begin,
and is kept by both of these, holds of the tree of every document; while the
tree is built it holds of all that there is of it, the open elements included.

Texts are joined with a space between them, so being tidy is of this kind.
-/
import Scene.Markup.Tree
import Scene.Proofs.Markup.Element

namespace Scene.Markup

open Element

/-! ### What is kept -/

/-- A property that children and texts do not take from an element. -/
structure Kept (P : Element → Prop) : Prop where
  push : ∀ {e c : Element}, P e → P c → P (e.push c)
  addText : ∀ {segment : String} {e : Element}, Text.IsTidy segment → P e →
    P (Builder.addText segment e)

/-- The property holds of the element that an event begins, if it begins one. -/
def Event.Begins (P : Element → Prop) : Event → Prop
  | .start tag attributes => P { tag, attributes }
  | .empty tag attributes => P { tag, attributes }
  | _ => True

/-! ### Incomplete trees -/

namespace Builder

/-- The property holds of all elements of an incomplete tree. -/
structure All (P : Element → Prop) (b : Builder) : Prop where
  stack : ∀ e ∈ b.stack, P e
  root : ∀ e, b.root = some e → P e

variable {P : Element → Prop} {b b' : Builder}

/-- A text that is added keeps what is kept. -/
theorem All.appendText (hP : Kept P) (h : b.All P) (content : String) :
    (b.appendText content).All P := by
  unfold Builder.appendText
  dsimp only
  split
  · exact h
  · next hne =>
    have htidy : Text.IsTidy (Text.trim content) :=
      Text.isTidy_trim fun heq => hne (by rw [heq]; rfl)
    split
    -- outside all elements the text is only noted
    · exact ⟨h.stack, h.root⟩
    · next top below hstack =>
      have hall := h.stack
      rw [hstack] at hall
      obtain ⟨htop, hbelow⟩ := List.forall_mem_cons.mp hall
      exact ⟨List.forall_mem_cons.mpr ⟨hP.addText htidy htop, hbelow⟩, h.root⟩

/-- An element that is attached keeps what it has itself. -/
theorem All.attach (hP : Kept P) (h : b.All P) {e : Element} (he : P e)
    (hb : b.attach e = .ok b') : b'.All P := by
  unfold Builder.attach at hb
  split at hb
  · -- the element becomes a child of the one that is open
    next parent below hstack =>
    cases hb
    have hall := h.stack
    rw [hstack] at hall
    obtain ⟨hparent, hbelow⟩ := List.forall_mem_cons.mp hall
    exact ⟨List.forall_mem_cons.mpr ⟨hP.push hparent he, hbelow⟩, h.root⟩
  · next hstack =>
    -- it becomes the root, if there is none
    split at hb
    · cases hb
      refine ⟨h.stack, ?_⟩
      intro root hroot
      exact Option.some.inj hroot ▸ he
    · cases hb

/-- No event takes the property from what there is. -/
theorem All.step (hP : Kept P) (h : b.All P) {event : Event} (hevent : event.Begins P)
    (hb : b.step event = .ok b') : b'.All P := by
  cases event with
  | start tag attributes =>
    cases hb
    exact ⟨List.forall_mem_cons.mpr ⟨hevent, h.stack⟩, h.root⟩
  | empty tag attributes => exact h.attach hP hevent hb
  | finish tag =>
    simp only [Builder.step] at hb
    split at hb
    · cases hb
    · next e below hstack =>
      have hall := h.stack
      rw [hstack] at hall
      obtain ⟨he, hbelow⟩ := List.forall_mem_cons.mp hall
      exact All.attach (b := { b with stack := below }) hP ⟨hbelow, h.root⟩ he hb
  | text content =>
    have hb : b.appendText content = b' := Except.ok.inj hb
    exact hb ▸ h.appendText hP content
  | literal content =>
    have hb : b.appendText content = b' := Except.ok.inj hb
    exact hb ▸ h.appendText hP content
  | skipped =>
    cases hb
    exact h

/-- What every event begins with, all that is built has. -/
theorem All.run (hP : Kept P) (h : b.All P) {events : List Event}
    (hevents : ∀ event ∈ events, event.Begins P) : (b.run events).1.All P := by
  induction events generalizing b with
  | nil => exact h
  | cons event events ih =>
    obtain ⟨hevent, hrest⟩ := List.forall_mem_cons.mp hevents
    rw [Builder.run]
    split
    · next b' hb => exact ih (h.step hP hevent hb) hrest
    -- the run stops at an error with what there is
    · exact h

end Builder

/-- What holds of elements as they begin, and is kept, holds of the tree of a
document. -/
theorem Kept.of_readDocument {P : Element → Prop} (hP : Kept P) {document : String}
    (hevents : ∀ event ∈ (Event.ofDocument document).1, event.Begins P) {root : Element}
    (h : (readDocument document).value = .ok root) : P root := by
  have hall := Builder.All.run (b := {}) hP ⟨by simp, by simp⟩ hevents
  simp only [readDocument] at h
  split at h
  · cases h
  · unfold Builder.result at h
    split at h
    · cases h
    · split at h
      · next hroot =>
        cases h
        exact hall.root _ hroot
      · cases h

/-! ### Tidy trees -/

theorem tidy_without_text (tag : String) (attributes : List (String × String)) :
    Element.Tidy { tag, attributes } := ⟨_, by simp, by simp⟩

theorem tidy_push {e c : Element} (he : e.Tidy) (hc : c.Tidy) : (e.push c).Tidy := by
  refine ⟨_, fun text ht => he.text ht, ?_⟩
  intro d hd
  rcases List.mem_append.mp hd with hd | hd
  · exact he.child hd
  · exact List.mem_singleton.mp hd ▸ hc

theorem tidy_addText {segment : String} (h : Text.IsTidy segment) {e : Element} (he : e.Tidy) :
    (Builder.addText segment e).Tidy := by
  unfold Builder.addText
  split
  -- the element has a text already, and the segment is joined to it
  · next before hbefore =>
    refine ⟨_, fun text ht => ?_, fun c hc => he.child hc⟩
    obtain rfl := Option.some.inj ht
    exact (he.text hbefore).join " " h
  · refine ⟨_, fun text ht => ?_, fun c hc => he.child hc⟩
    obtain rfl := Option.some.inj ht
    exact h

/-- The tree of a document is tidy. -/
theorem tidy_of_readDocument {document : String} {root : Element}
    (h : (readDocument document).value = .ok root) : root.Tidy := by
  have hkept : Kept Element.Tidy := ⟨tidy_push, fun hsegment he => tidy_addText hsegment he⟩
  refine hkept.of_readDocument (fun event _ => ?_) h
  -- an element begins without text and children, so there is nothing that is not tidy
  cases event with
  | start tag attributes => exact tidy_without_text tag attributes
  | empty tag attributes => exact tidy_without_text tag attributes
  | _ => trivial

end Scene.Markup

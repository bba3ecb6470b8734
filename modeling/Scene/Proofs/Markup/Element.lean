/-
Trees as they come from a document.

The texts of a tree that was read are tidy: a text is not empty and has no
blanks at its ends.  What is said here of a tree is said of all its elements;
proofs go from the children of an element to the element.
-/
import Scene.Markup.Element
import Scene.Proofs.Text.Blank

namespace Scene

/-- A tree whose texts are all tidy. -/
inductive Element.Tidy : Element → Prop
  | mk (e : Element) : (∀ text, e.text = some text → Text.IsTidy text) →
      (∀ c ∈ e.children, c.Tidy) → e.Tidy

namespace Element

/-- The text of a tidy element is tidy. -/
theorem Tidy.text {e : Element} (h : e.Tidy) {text : String} (ht : e.text = some text) :
    Text.IsTidy text := by
  cases h with
  | mk _ htext _ => exact htext text ht

/-- The children of a tidy element are tidy. -/
theorem Tidy.child {e c : Element} (h : e.Tidy) (hc : c ∈ e.children) : c.Tidy := by
  cases h with
  | mk _ _ hchildren => exact hchildren c hc

variable {e c : Element} {tag : String}

theorem mem_of_child? (h : e.child? tag = some c) : c ∈ e.children :=
  List.mem_of_find?_eq_some h

/-- The children of a tag are those that have it. -/
theorem mem_childrenNamed_iff : c ∈ e.childrenNamed tag ↔ c ∈ e.children ∧ c.tag = tag := by
  simp [childrenNamed]

/-- The text of a child is tidy. -/
theorem Tidy.childText? (h : e.Tidy) {text : String} (ht : e.childText? tag = some text) :
    Text.IsTidy text := by
  obtain ⟨c, hc, htext⟩ := Option.bind_eq_some_iff.mp ht
  exact (h.child (mem_of_child? hc)).text htext

/-- What holds of an element if it holds of its children holds of every
element. -/
theorem induction_children {P : Element → Prop} (h : ∀ e, (∀ c ∈ e.children, P c) → P e)
    (e : Element) : P e :=
  -- elements nest in lists, so that a child is smaller is seen from its size
  h e fun c _hc => induction_children h c
termination_by sizeOf e
decreasing_by
  obtain ⟨tag, attributes, text, children⟩ := e
  have := List.sizeOf_lt_of_mem _hc
  simp only [Element.mk.sizeOf_spec] at this ⊢
  omega

/-- Rows equal themselves if their members do. -/
theorem beqAll_refl {es : List Element} (h : ∀ e ∈ es, beq e e = true) : beqAll es es = true := by
  induction es with
  | nil => rfl
  | cons e es ih =>
    obtain ⟨he, hes⟩ := List.forall_mem_cons.mp h
    rw [beqAll, he, ih hes]
    rfl

/-- Every element equals itself, at whatever depth. -/
instance : ReflBEq Element where
  rfl := by
    intro e
    induction e using induction_children with
    | h e ih =>
      obtain ⟨tag, attributes, text, children⟩ := e
      show beq _ _ = true
      rw [beq, beqAll_refl ih]
      simp

end Element

end Scene

/-
What is written of a tree is read as the same tree.

The proof goes by the three steps of reading.  The characters written of an
element are cut into certain tokens; these mean certain events, which open and
close what they find open; and the events put the element where it belongs.
Each step is stated for an element in the middle of a document, with something
behind it, and is proved by going from the children of an element to the
element.

A tree must be tidy to be read back, and its names must be names: these are
written as they are.  Values of attributes may be anything.
-/
import Scene.Proofs.Markup.Token
import Scene.Proofs.Markup.Tree

namespace Scene

open Markup

namespace Element

/-- A tree whose tags and attributes have proper names, no two attributes of an
element the same. -/
inductive WellNamed : Element → Prop
  | mk (e : Element) : IsName e.tag → (∀ a ∈ e.attributes, IsName a.1) →
      (e.attributes.map Prod.fst).Nodup → (∀ c ∈ e.children, c.WellNamed) → e.WellNamed

/-- A well-named element has names in its tag and its attributes, and no
attribute twice. -/
theorem WellNamed.names {e : Element} (h : e.WellNamed) :
    IsName e.tag ∧ (∀ a ∈ e.attributes, IsName a.1) ∧ (e.attributes.map Prod.fst).Nodup := by
  cases h with
  | mk _ htag hattributes hnodup _ => exact ⟨htag, hattributes, hnodup⟩

/-- The children of a well-named element are well named. -/
theorem WellNamed.child {e c : Element} (h : e.WellNamed) (hc : c ∈ e.children) :
    c.WellNamed := by
  cases h with
  | mk _ _ _ _ hchildren => exact hchildren c hc

/-- A tree that can be written and read back. -/
structure Proper (e : Element) : Prop where
  named : e.WellNamed
  tidy : e.Tidy

/-- An element with a text can be written. -/
theorem proper_text {tag text : String} {attributes : List (String × String)} (htag : IsName tag)
    (hattributes : ∀ a ∈ attributes, IsName a.1) (hnodup : (attributes.map Prod.fst).Nodup)
    (htext : Text.IsTidy text) : Proper { tag, attributes, text := some text } :=
  ⟨⟨_, htag, hattributes, hnodup, by simp⟩, ⟨_, by simpa using htext, by simp⟩⟩

/-- An element can be written around children that can be. -/
theorem proper_children {e : Element} (htag : IsName e.tag)
    (hattributes : ∀ a ∈ e.attributes, IsName a.1) (hnodup : (e.attributes.map Prod.fst).Nodup)
    (htext : e.text = none) (hchildren : ∀ c ∈ e.children, c.Proper) : e.Proper :=
  ⟨⟨e, htag, hattributes, hnodup, fun c hc => (hchildren c hc).named⟩,
    ⟨e, by simp [htext], fun c hc => (hchildren c hc).tidy⟩⟩

/-! ### Tokens of a tree -/

/-- Whether an element is written as one tag. -/
def isBare (e : Element) : Bool := e.text.isNone && e.children.isEmpty

mutual

/-- The tokens that an element is written with. -/
def tokens : Element → List Token
  | ⟨tag, attributes, text, children⟩ =>
    if text.isNone && children.isEmpty then
      [.emptyTag (tagContent tag attributes)]
    else
      [.startTag (tagContent tag attributes)]
        ++ text.toList.map (fun t => Token.text (escape t.toList))
        ++ allTokens children ++ [.endTag tag.toList]

/-- The tokens that several elements are written with. -/
def allTokens : List Element → List Token
  | [] => []
  | c :: cs => tokens c ++ allTokens cs

end

/-- The tokens of an element, without the recursion over rows. -/
theorem tokens_eq (e : Element) : e.tokens =
    if e.isBare then
      [.emptyTag (tagContent e.tag e.attributes)]
    else
      [.startTag (tagContent e.tag e.attributes)]
        ++ e.text.toList.map (fun t => Token.text (escape t.toList))
        ++ allTokens e.children ++ [.endTag e.tag.toList] := by
  obtain ⟨tag, attributes, text, children⟩ := e
  rw [tokens]
  rfl

/-- The characters of an element, without the recursion over rows. -/
theorem chars_eq (depth : Nat) (rest : List Char) (e : Element) : e.chars depth rest =
    if e.isBare then
      '<' :: (tagContent e.tag e.attributes ++ '/' :: '>' :: rest)
    else
      let ending := '<' :: '/' :: (e.tag.toList ++ '>' :: rest)
      let ending := if e.children.isEmpty then ending else lineBreak depth ++ ending
      '<' :: (tagContent e.tag e.attributes ++ '>' :: (escape (e.text.getD "").toList
        ++ childrenChars (depth + 1) ending e.text.isNone e.children)) := by
  obtain ⟨tag, attributes, text, children⟩ := e
  rw [chars]
  simp only [tagContent, isBare, List.append_assoc]

/-- A line break and the indent behind it are blank. -/
theorem blanks_lineBreak (depth : Nat) : Blanks (lineBreak depth) := by
  intro c hc
  rcases List.mem_cons.mp hc with rfl | hc
  · rfl
  · rw [List.eq_of_mem_replicate hc]
    rfl

theorem blanks_nil : Blanks [] := by
  intro c hc
  cases hc

theorem exists_chars (depth : Nat) (rest : List Char) (e : Element) :
    ∃ cs, e.chars depth rest = '<' :: cs := by
  rw [chars_eq]
  split
  · exact ⟨_, rfl⟩
  · exact ⟨_, rfl⟩

/-- Children are read as their tokens, whatever blanks stand between them. -/
theorem lexes_children {cs : List Element}
    (h : ∀ c ∈ cs, ∀ depth rest ws, Blanks ws → Lexes (ws ++ c.chars depth rest) c.tokens rest)
    (depth : Nat) (rest : List Char) (broken : Bool) :
    Lexes (childrenChars depth rest broken cs) (allTokens cs) rest := by
  -- `broken` says whether a child begins on a line of its own; the blanks are skipped either way
  induction cs generalizing broken with
  | nil =>
    rw [childrenChars, allTokens]
    exact .refl rest
  | cons c cs ih =>
    obtain ⟨hc, hcs⟩ := List.forall_mem_cons.mp h
    have hrest := ih hcs true
    rw [childrenChars, allTokens]
    split
    · exact (hc depth _ _ (blanks_lineBreak depth)).trans hrest
    · exact (hc depth _ _ blanks_nil).trans hrest

/-- What follows a text is a tag. -/
theorem exists_childrenChars (depth : Nat) {ending : List Char} {cs : List Element}
    (h : cs = [] → ∃ ds, ending = '<' :: ds) :
    ∃ ds, childrenChars depth ending false cs = '<' :: ds := by
  cases cs with
  | nil => exact h rfl
  | cons c cs =>
    rw [childrenChars]
    exact exists_chars depth _ c

/-- An escaped text is read as one token. -/
theorem lexes_escape {text : String} (h : Text.IsTidy text) {rest : List Char}
    (hrest : ∃ ds, rest = '<' :: ds) :
    Lexes (escape text.toList ++ rest) [.text (escape text.toList)] rest := by
  obtain ⟨ds, rfl⟩ := hrest
  refine lexes_text (escape_ne_nil (Text.isTidy_iff.mp h).1)
    (bareOf_escape (bareOf_isSpace_of_isTidy h)) fun c hc => ?_
  have := isMark_of_mem_escape hc
  simp only [isMark, Bool.or_eq_false_iff] at this
  simp only [bne, this.1.1.1, Bool.not_false]

/-- **What is written of a tree is cut into its tokens.** -/
theorem lexes_chars {e : Element} (hnamed : e.WellNamed) (htidy : e.Tidy) (depth : Nat)
    (rest : List Char) {ws : List Char} (hws : Blanks ws) :
    Lexes (ws ++ e.chars depth rest) e.tokens rest := by
  -- from the children to the element, at any depth and with anything behind it
  induction e using induction_children generalizing depth rest ws with
  | h e ih =>
    obtain ⟨htag, hattributes, -⟩ := hnamed.names
    rw [chars_eq, tokens_eq]
    split
    · exact lexes_emptyTag hws htag hattributes rest
    · next hbare =>
      dsimp only
      generalize hending : (if e.children.isEmpty then '<' :: '/' :: (e.tag.toList ++ '>' :: rest)
        else lineBreak depth ++ '<' :: '/' :: (e.tag.toList ++ '>' :: rest)) = ending
      have hchildren := lexes_children (fun c hc depth rest ws hws =>
        ih c hc (hnamed.child hc) (htidy.child hc) depth rest hws) (depth + 1) ending
          e.text.isNone
      -- the end tag stands on a line of its own if there are children
      have hend : Lexes ending [.endTag e.tag.toList] rest := by
        rw [← hending]
        split
        · exact lexes_endTag blanks_nil htag rest
        · exact lexes_endTag (blanks_lineBreak depth) htag rest
      have htext : Lexes (escape (e.text.getD "").toList
            ++ childrenChars (depth + 1) ending e.text.isNone e.children)
          (e.text.toList.map fun t => Token.text (escape t.toList))
          (childrenChars (depth + 1) ending e.text.isNone e.children) := by
        cases htext : e.text with
        | none => exact .refl _
        | some text =>
          -- a text is followed by a child or by the end tag, so it stops there
          refine lexes_escape (htidy.text htext) (exists_childrenChars _ fun hnil => ?_)
          rw [← hending, hnil]
          exact ⟨_, rfl⟩
      exact (((lexes_startTag hws htag hattributes _).trans htext).trans hchildren).trans hend

end Element

end Scene

/-
A tree that is written as a document is read back.

The tokens of a tree mean its events: a start tag opens an element, an end tag
closes it, and in between the children come and go.  The events of an element
stand for it, whatever stands behind them.

Main statement: `readDocument_toDocument`.
-/
import Scene.Proofs.Markup.Building
import Scene.Proofs.Markup.Rendering

namespace Scene

open Markup

/-! ### What tokens mean -/

namespace Markup

/-- Tokens mean these events, and change which elements are open. -/
def Means (opened : List String) (ts : List Token) (es : List Event) (opened' : List String) :
    Prop :=
  ∀ ls ls', ls.map Lexeme.token = ts → Event.ofLexemes opened (ls ++ ls') =
    (es ++ (Event.ofLexemes opened' ls').1, (Event.ofLexemes opened' ls').2)

theorem Means.refl (opened : List String) : Means opened [] [] opened := by
  intro ls ls' hls
  rw [List.map_eq_nil_iff.mp hls]
  rfl

/-- Tokens that follow each other mean what they mean, with what is open handed
on. -/
theorem Means.trans {opened opened' opened'' : List String} {ts us : List Token}
    {es fs : List Event} (h : Means opened ts es opened') (h' : Means opened' us fs opened'') :
    Means opened (ts ++ us) (es ++ fs) opened'' := by
  intro ls ls' hls
  -- where the tokens divide, their lexemes divide
  obtain ⟨as, bs, rfl, has, hbs⟩ := List.map_eq_append_iff.mp hls
  rw [List.append_assoc, h as _ has, h' bs _ hbs, List.append_assoc]

theorem Means.single {opened : List String} {t : Token} (event : Event)
    (h : ∀ position, Event.ofLexeme opened ⟨position, t⟩ = .ok event) :
    Means opened [t] [event] (Event.opened opened event) := by
  intro ls ls' hls
  obtain ⟨⟨position, t'⟩, rfl, ht⟩ := List.map_eq_singleton_iff.mp hls
  obtain rfl : t' = t := ht
  rw [List.singleton_append, Event.ofLexemes, h position]
  rfl

variable {tag : String} {attributes : List (String × String)}

/-- A tag that is written is read as the event that it was written for. -/
theorem ofTag_written (htag : IsName tag) (hattributes : ∀ a ∈ attributes, IsName a.1)
    (hnodup : (attributes.map Prod.fst).Nodup)
    (make : String → List (String × String) → Event) :
    Event.ofTag make (tagContent tag attributes) = .ok (make tag attributes) := by
  rw [Event.ofTag, tagContent, tagAttributes_written htag hattributes hnodup,
    (tagName_written htag attributes).1, String.ofList_toList]

end Markup

namespace Element

mutual

/-- The events that an element is made by. -/
def events : Element → List Event
  | ⟨tag, attributes, text, children⟩ =>
    if text.isNone && children.isEmpty then
      [.empty tag attributes]
    else
      [.start tag attributes] ++ text.toList.map Event.text ++ allEvents children ++ [.finish tag]

/-- The events that several elements are made by. -/
def allEvents : List Element → List Event
  | [] => []
  | c :: cs => events c ++ allEvents cs

end

/-- The events of an element, without the recursion over rows. -/
theorem events_eq (e : Element) : e.events =
    if e.isBare then
      [.empty e.tag e.attributes]
    else
      [.start e.tag e.attributes] ++ e.text.toList.map Event.text ++ allEvents e.children
        ++ [.finish e.tag] := by
  obtain ⟨tag, attributes, text, children⟩ := e
  rw [events]
  rfl

theorem means_text (opened : List String) (text : Option String) :
    Means opened (text.toList.map fun t => Token.text (escape t.toList))
      (text.toList.map Event.text) opened := by
  cases text with
  | none => exact .refl opened
  | some text =>
    apply Means.single (.text text)
    intro position
    simp only [Event.ofLexeme, unescape_escape, String.ofList_toList]

/-- Elements side by side mean their events if each of them does. -/
theorem means_all {opened : List String} {cs : List Element}
    (h : ∀ c ∈ cs, Means opened c.tokens c.events opened) :
    Means opened (allTokens cs) (allEvents cs) opened := by
  induction cs with
  | nil => exact .refl opened
  | cons c cs ih =>
    obtain ⟨hc, hcs⟩ := List.forall_mem_cons.mp h
    rw [allTokens, allEvents]
    exact hc.trans (ih hcs)

/-- **The tokens of a tree mean its events.** -/
theorem means_tokens {e : Element} (hnamed : e.WellNamed) (opened : List String) :
    Means opened e.tokens e.events opened := by
  induction e using induction_children generalizing opened with
  | h e ih =>
    obtain ⟨htag, hattributes, hnodup⟩ := hnamed.names
    rw [tokens_eq, events_eq]
    split
    · exact Means.single (.empty e.tag e.attributes) fun position =>
        ofTag_written htag hattributes hnodup .empty
    -- the end tag is accepted because the tag of the element is still on top
    · have hstart : Means opened [.startTag (tagContent e.tag e.attributes)]
          [.start e.tag e.attributes] (e.tag :: opened) :=
        Means.single (.start e.tag e.attributes) fun position =>
          ofTag_written htag hattributes hnodup .start
      have hend : Means (e.tag :: opened) [.endTag e.tag.toList] [.finish e.tag] opened := by
        apply Means.single (.finish e.tag)
        intro position
        simp only [Event.ofLexeme, Event.ofEndTag, String.ofList_toList, if_true]
      have hchildren := means_all fun c hc => ih c hc (hnamed.child hc) (e.tag :: opened)
      exact ((hstart.trans (means_text _ e.text)).trans hchildren).trans hend

/-! ### What events stand for -/

/-- A tidy text is joined to itself. -/
theorem joined_toList {text : Option String} (htidy : ∀ t, text = some t → Text.IsTidy t) :
    joined text.toList = text := by
  cases text with
  | none => rfl
  | some text =>
    obtain ⟨hne, htrim⟩ := htidy text rfl
    simp [joined, row, htrim, hne]

/-- A text in front is one of those that are met. -/
theorem nests_text (text : Option String) {es : List Event} {cs : List Element} {ts : List String}
    (h : Nests es cs ts) :
    Nests (text.toList.map Event.text ++ es) cs (text.toList ++ ts) := by
  cases text with
  | none => exact h
  | some text => exact .text text h

/-- Elements side by side nest if each of them does. -/
theorem nests_all {children : List Element}
    (hall : ∀ c ∈ children, ∀ es cs ts, Nests es cs ts → Nests (c.events ++ es) (c :: cs) ts) :
    Nests (allEvents children) children [] := by
  induction children with
  | nil => exact .nil
  | cons c children ih =>
    obtain ⟨hc, hchildren⟩ := List.forall_mem_cons.mp hall
    rw [allEvents]
    exact hc _ _ _ (ih hchildren)

/-- The events of an element stand for it, and leave those behind them as they
are. -/
theorem nests_events {e : Element} (htidy : e.Tidy) {es : List Event} {cs : List Element}
    {ts : List String} (h : Nests es cs ts) : Nests (e.events ++ es) (e :: cs) ts := by
  induction e using induction_children generalizing es cs ts with
  | h e ih =>
    obtain ⟨tag, attributes, text, children⟩ := e
    rw [events_eq]
    split
    · next hbare =>
      simp only [isBare, Bool.and_eq_true, Option.isNone_iff_eq_none, List.isEmpty_iff] at hbare
      obtain ⟨rfl, rfl⟩ := hbare
      exact .empty tag attributes h
    · have hchildren : Nests (allEvents children) children [] :=
        nests_all fun c hc es cs ts h => ih c hc (htidy.child hc) h
      -- text first, then children: the order they are written in
      have hcontent := nests_text text hchildren
      have helement := Nests.element tag attributes tag hcontent h
      rw [List.append_nil, assemble, joined_toList fun t ht => htidy.text ht] at helement
      simpa using helement

end Element

/-! ### Documents -/

namespace Element

/-- The declaration in front of a document is skipped. -/
theorem lexes_declaration (rest : List Char) :
    Lexes (declaration.toList ++ rest) [.skipped] rest := by
  have hcut : cutMarkup ("?xml version=\"1.0\"?>".toList ++ rest) = .ok ⟨.skipped, 21, rest⟩ :=
    rfl
  exact lexes_markup blanks_nil hcut

/-- A document is read as the tokens of its element, behind the declaration. -/
theorem tokens_toDocument {e : Element} (hnamed : e.WellNamed) (htidy : e.Tidy) :
    ∃ ls, Markup.tokens e.toDocument = (ls, none) ∧
      ls.map Lexeme.token = .skipped :: e.tokens := by
  have hchars : e.toDocument.toList = declaration.toList ++ (lineBreak 0 ++ e.chars 0 []) := by
    rw [toDocument, String.toList_append, String.toList_ofList]
  obtain ⟨position, ls, hls, hlex⟩ := ((lexes_declaration (lineBreak 0 ++ e.chars 0 [])).trans
    (lexes_chars hnamed htidy 0 [] (blanks_lineBreak 0))) 0
  -- nothing is left behind the tree
  have hend : lex position [] = ([], none) := by
    rw [lex]
    rfl
  rw [hend, List.append_nil] at hlex
  refine ⟨ls, ?_, hls⟩
  rw [Markup.tokens, hchars]
  exact hlex

/-- **A tree with proper names and tidy texts is read back from its
document.** -/
theorem readDocument_toDocument {e : Element} (hnamed : e.WellNamed) (htidy : e.Tidy) :
    (readDocument e.toDocument).value = .ok e := by
  obtain ⟨ls, htokens, hls⟩ := tokens_toDocument hnamed htidy
  -- tokens mean events, and events stand for the tree
  have hmeans : Means [] (.skipped :: e.tokens) (.skipped :: e.events) [] :=
    (Means.single (t := .skipped) .skipped fun _ => rfl).trans (means_tokens hnamed [])
  have hevents := hmeans ls [] hls
  rw [List.append_nil] at hevents
  have hdocument : Event.ofDocument e.toDocument = (.skipped :: e.events, none) := by
    rw [Event.ofDocument, htokens]
    dsimp only
    rw [hevents]
    simp [Event.ofLexemes]
  have hnests : Nests (.skipped :: e.events) [e] [] := by
    simpa using Nests.skipped (nests_events htidy .nil)
  rw [readDocument_eq_treeOfEvents (congrArg Prod.snd hdocument), hdocument]
  exact hnests.treeOfEvents_eq

end Element

end Scene

/-
The tokens of a tree that is written.

What is written of an element is a start tag, its text, what is written of its
children, and an end tag, or one tag if there is nothing in between.  Blanks
are put in front of tags only, where cutting skips them.  So the tokens of the
written characters are those of the tree, whatever comes behind them.
-/
import Scene.Markup.Rendering
import Scene.Markup.Token
import Scene.Proofs.Markup.Attributes
import Scene.Proofs.Markup.Element

namespace Scene.Markup

open Element (attributeChars chars childrenChars lineBreak)

/-! ### Cutting in turn -/

/-- Cutting some characters gives these tokens, and goes on with the rest. -/
def Lexes (cs : List Char) (ts : List Token) (rest : List Char) : Prop :=
  ∀ position, ∃ position' ls, ls.map Lexeme.token = ts ∧
    lex position cs = (ls ++ (lex position' rest).1, (lex position' rest).2)

theorem Lexes.refl (cs : List Char) : Lexes cs [] cs :=
  fun position => ⟨position, [], rfl, rfl⟩

/-- Characters that follow each other are read as their tokens. -/
theorem Lexes.trans {cs ds es : List Char} {ts us : List Token} (h : Lexes cs ts ds)
    (h' : Lexes ds us es) : Lexes cs (ts ++ us) es := by
  intro position
  obtain ⟨position', ls, hls, heq⟩ := h position
  obtain ⟨position'', ls', hls', heq'⟩ := h' position'
  refine ⟨position'', ls ++ ls', by rw [List.map_append, hls, hls'], ?_⟩
  rw [heq, heq', List.append_assoc]

/-- Characters that are skipped. -/
def Blanks (ws : List Char) : Prop := ∀ c ∈ ws, isSpace c = true

/-- Blanks in front are dropped up to the first character that is none. -/
theorem dropWhile_blanks {ws : List Char} (hws : Blanks ws) {c : Char} (hc : isSpace c = false)
    (cs : List Char) : (ws ++ c :: cs).dropWhile isSpace = c :: cs :=
  (span_append hws hc cs).2

/-- A tag, behind blanks. -/
theorem lexes_markup {ws body : List Char} (hws : Blanks ws) {cut : Cut}
    (hcut : cutMarkup body = .ok cut) : Lexes (ws ++ '<' :: body) [cut.token] cut.rest := by
  intro position
  have hdrop := dropWhile_blanks hws (c := '<') (by decide) body
  rw [lex]
  split
  · next heq =>
    rw [hdrop] at heq
    cases heq
  · next c rest heq =>
    rw [hdrop] at heq
    obtain ⟨rfl, rfl⟩ := List.cons.inj heq
    dsimp only
    -- the bracket begins a tag, which is cut by itself
    rw [if_pos rfl]
    split
    · next hcut' =>
      rw [hcut] at hcut'
      cases hcut'
    · next cut' hcut' =>
      rw [hcut] at hcut'
      obtain rfl := Except.ok.inj hcut'
      exact ⟨_, [_], rfl, rfl⟩

/-- A text without blanks at its ends, up to the next tag. -/
theorem lexes_text {raw rest : List Char} (hne : raw ≠ []) (hbare : Text.BareOf isSpace raw)
    (hraw : ∀ c ∈ raw, (c != '<') = true) :
    Lexes (raw ++ '<' :: rest) [.text raw] ('<' :: rest) := by
  intro position
  obtain ⟨c, cs, rfl⟩ := List.exists_cons_of_ne_nil hne
  obtain ⟨hc, hcs⟩ := List.forall_mem_cons.mp hraw
  have hdrop : (c :: cs ++ '<' :: rest).dropWhile isSpace = c :: (cs ++ '<' :: rest) :=
    List.dropWhile_cons_of_neg (by simp [hbare.1 c rfl])
  obtain ⟨htake, hrest⟩ := span_append hcs (d := '<') (by decide) rest
  rw [lex]
  split
  · next heq =>
    rw [hdrop] at heq
    cases heq
  · next d ds heq =>
    rw [hdrop] at heq
    obtain ⟨rfl, rfl⟩ := List.cons.inj heq
    dsimp only
    -- the text goes up to the bracket, and has no blanks to lose
    rw [if_neg (by simpa using hc), htake, hrest]
    refine ⟨_, [_], ?_, rfl⟩
    rw [List.map_singleton, Text.dropEndWhile_eq_self hbare.2]

/-! ### Tags -/

/-- Characters that leave a tag as open as it was, outside quotes. -/
def Passes (cs : List Char) : Prop :=
  ∀ ds, splitTag none (cs ++ ds) =
    (splitTag none ds).map fun (content, rest) => (cs ++ content, rest)

/-- What passes through a tag does so side by side. -/
theorem Passes.append {cs ds : List Char} (h : Passes cs) (h' : Passes ds) :
    Passes (cs ++ ds) := by
  intro es
  rw [List.append_assoc, h, h', Option.map_map]
  simp [Function.comp_def]

theorem passes_nil : Passes [] := by
  intro ds
  simp

theorem passes_of_not_isMark {cs : List Char} (h : ∀ c ∈ cs, isMark c = false) : Passes cs := by
  induction cs with
  | nil => exact passes_nil
  | cons c cs ih =>
    obtain ⟨hc, hcs⟩ := List.forall_mem_cons.mp h
    simp only [isMark, Bool.or_eq_false_iff, beq_eq_false_iff_ne] at hc
    intro ds
    -- such a character neither closes the tag nor opens a quote
    have hquote : ¬ (c = '"' ∨ c = '\'') := by simp [hc]
    simp only [List.cons_append, splitTag, if_neg hc.1.1.2, if_neg hquote, ih hcs ds,
      Option.map_map]
    rfl

/-- Inside quotes a tag does not end. -/
theorem splitTag_quoted {cs : List Char} (h : ∀ c ∈ cs, isMark c = false) (ds : List Char) :
    splitTag (some '"') (cs ++ '"' :: ds) =
      (splitTag none ds).map fun (content, rest) => (cs ++ '"' :: content, rest) := by
  induction cs with
  | nil => rfl
  | cons c cs ih =>
    obtain ⟨hc, hcs⟩ := List.forall_mem_cons.mp h
    -- only the quote itself ends the value, and it was escaped
    have hquote : c ≠ '"' := by
      rintro rfl
      cases hc
    simp only [List.cons_append, splitTag, if_neg hquote, ih hcs, Option.map_map]
    rfl

/-- A quoted value passes through a tag. -/
theorem passes_quoted {cs : List Char} (h : ∀ c ∈ cs, isMark c = false) :
    Passes ('"' :: (cs ++ ['"'])) := by
  intro ds
  have hopen : splitTag none ('"' :: (cs ++ '"' :: ds)) =
      (splitTag (some '"') (cs ++ '"' :: ds)).map fun (content, rest) => ('"' :: content, rest) :=
    rfl
  simp only [List.cons_append, List.append_assoc, List.nil_append, hopen, splitTag_quoted h,
    Option.map_map]
  rfl

theorem isMark_of_isName {name : String} (h : IsName name) :
    ∀ c ∈ name.toList, isMark c = false := by
  intro c hc
  exact (isNameChar_iff.mp (h.2 c hc)).2.1

/-- Attributes that are written pass through a tag. -/
theorem passes_attributes {attributes : List (String × String)}
    (hnames : ∀ a ∈ attributes, IsName a.1) : Passes (attributeChars attributes) := by
  induction attributes with
  | nil => exact passes_nil
  | cons a attributes ih =>
    obtain ⟨name, value⟩ := a
    obtain ⟨hname, hnames⟩ := List.forall_mem_cons.mp hnames
    -- name and equals sign hold no mark; around the value stand two, its quotes
    have hkey : Passes (' ' :: (name.toList ++ ['='])) := by
      apply passes_of_not_isMark
      intro c hc
      rw [List.mem_cons, List.mem_append, List.mem_singleton] at hc
      rcases hc with rfl | hc | rfl
      · rfl
      · exact isMark_of_isName hname c hc
      · rfl
    have hvalue : Passes ('"' :: (escape value.toList ++ ['"'])) :=
      passes_quoted fun _ => isMark_of_mem_escape
    have h := (hkey.append hvalue).append (ih hnames)
    rw [attributeChars_cons]
    simpa using h

/-- What stands between the brackets of a start tag. -/
def tagContent (tag : String) (attributes : List (String × String)) : List Char :=
  tag.toList ++ attributeChars attributes

/-- What stands behind the attributes is part of the tag, as long as it leaves the tag
open. -/
theorem splitTag_content {tag : String} (htag : IsName tag) {attributes : List (String × String)}
    (hnames : ∀ a ∈ attributes, IsName a.1) {behind : List Char} (hbehind : Passes behind)
    (rest : List Char) :
    splitTag none (tagContent tag attributes ++ behind ++ '>' :: rest) =
      some (tagContent tag attributes ++ behind, rest) := by
  have hname := passes_of_not_isMark (isMark_of_isName htag)
  rw [tagContent, (hname.append (passes_attributes hnames)).append hbehind]
  simp [splitTag]

/-- A start tag does not begin with a character that makes it something
else. -/
theorem cutMarkup_eq_cutStartTag {tag : String} (htag : IsName tag)
    (attributes : List (String × String)) (cs : List Char) :
    cutMarkup (tagContent tag attributes ++ cs) =
      cutStartTag (tagContent tag attributes ++ cs) := by
  obtain ⟨c, ds, hchars, hc, -⟩ := exists_of_isName htag
  obtain ⟨-, -, hslash, -, hbang, hquestion⟩ := isNameChar_iff.mp hc
  rw [tagContent, List.append_assoc, hchars, List.cons_append]
  unfold cutMarkup
  -- the patterns of all other kinds of markup begin with one of these three characters
  split
  · next heq => exact absurd (List.cons.inj heq).1 hbang
  · next heq => exact absurd (List.cons.inj heq).1 hbang
  · next heq => exact absurd (List.cons.inj heq).1 hbang
  · next heq => exact absurd (List.cons.inj heq).1 hbang
  · next heq => exact absurd (List.cons.inj heq).1 hbang
  · next heq => exact absurd (List.cons.inj heq).1 hquestion
  · next heq => exact absurd (List.cons.inj heq).1 hslash
  · rfl

/-- The content of a start tag does not end with a slash. -/
theorem getLast?_tagContent {tag : String} (htag : IsName tag)
    (attributes : List (String × String)) : (tagContent tag attributes).getLast? ≠ some '/' := by
  rcases List.eq_nil_or_concat attributes with rfl | ⟨as, ⟨name, value⟩, rfl⟩
  · -- the last character is one of the name
    intro h
    have hmem : '/' ∈ tag.toList := by
      refine List.mem_of_getLast? ?_
      simpa [tagContent, attributeChars] using h
    exact absurd (htag.2 _ hmem) (by decide)
  · -- the last character is a quote
    have hlast : tagContent tag (as.concat (name, value)) =
        (tag.toList ++ attributeChars as ++
          ' ' :: (name.toList ++ '=' :: '"' :: escape value.toList)) ++ ['"'] := by
      simp [tagContent, attributeChars]
    rw [hlast, List.getLast?_concat]
    decide

variable {tag : String} {attributes : List (String × String)} {ws : List Char}

/-- A start tag is read as one token. -/
theorem lexes_startTag (hws : Blanks ws) (htag : IsName tag)
    (hnames : ∀ a ∈ attributes, IsName a.1) (rest : List Char) :
    Lexes (ws ++ '<' :: (tagContent tag attributes ++ '>' :: rest))
      [.startTag (tagContent tag attributes)] rest := by
  have hsplit := splitTag_content htag hnames passes_nil rest
  rw [List.append_nil] at hsplit
  have hcut : cutMarkup (tagContent tag attributes ++ '>' :: rest) =
      .ok ⟨.startTag (tagContent tag attributes), 2 + Text.byteLength (tagContent tag attributes),
        rest⟩ := by
    rw [cutMarkup_eq_cutStartTag htag, cutStartTag, hsplit]
    simp only [if_neg (getLast?_tagContent htag attributes)]
  exact lexes_markup hws hcut

/-- An empty tag is read as one token. -/
theorem lexes_emptyTag (hws : Blanks ws) (htag : IsName tag)
    (hnames : ∀ a ∈ attributes, IsName a.1) (rest : List Char) :
    Lexes (ws ++ '<' :: (tagContent tag attributes ++ '/' :: '>' :: rest))
      [.emptyTag (tagContent tag attributes)] rest := by
  have hslash : Passes ['/'] := passes_of_not_isMark (List.forall_mem_singleton.mpr rfl)
  have hsplit := splitTag_content htag hnames hslash rest
  rw [List.append_assoc, List.singleton_append] at hsplit
  have hcut : cutMarkup (tagContent tag attributes ++ '/' :: '>' :: rest) =
      .ok ⟨.emptyTag (tagContent tag attributes),
        2 + Text.byteLength (tagContent tag attributes ++ ['/']), rest⟩ := by
    rw [cutMarkup_eq_cutStartTag htag, cutStartTag, hsplit]
    -- the slash at the end is not part of the content
    simp only [List.getLast?_concat, if_true, List.dropLast_concat]
  exact lexes_markup hws hcut

/-- An end tag is read as one token. -/
theorem lexes_endTag (hws : Blanks ws) (htag : IsName tag) (rest : List Char) :
    Lexes (ws ++ '<' :: '/' :: (tag.toList ++ '>' :: rest)) [.endTag tag.toList] rest := by
  have hsplit : splitTag none (tag.toList ++ '>' :: rest) = some (tag.toList, rest) := by
    rw [passes_of_not_isMark (isMark_of_isName htag)]
    simp [splitTag]
  have hname : endTagName tag.toList = tag.toList := by
    have hkeep : Text.dropEndWhile isSpace tag.toList = tag.toList := by
      apply Text.dropEndWhile_eq_self
      intro c hc
      exact (isNameChar_iff.mp (htag.2 c (List.mem_of_getLast? hc))).1
    rw [endTagName, hkeep]
    simp
  have hcut : cutMarkup ('/' :: (tag.toList ++ '>' :: rest)) =
      .ok ⟨.endTag tag.toList, 3 + Text.byteLength tag.toList, rest⟩ := by
    rw [cutMarkup, cutEndTag, hsplit]
    simp only [hname]
  exact lexes_markup hws hcut

end Scene.Markup

/-
Tokens of marked-up text.

A text is cut into tokens at its angle brackets.  Which kind of token begins at
an opening bracket is decided by the next one or two characters, and each kind
has its own end:

* a tag ends at the first closing bracket outside quotes,
* a comment, a literal section and an instruction end at their closing mark,
* a document type ends at the closing bracket that matches its opening one.

Between tokens blanks are skipped, and a text loses the blanks at its end.
Nothing is unescaped here and no tag is looked into.

Cutting stops at the first flaw.  The tokens before it are kept, because an
error in one of them comes first in the document.
-/
import Scene.Markup.Attributes

namespace Scene.Markup

/-- What is wrong with the form of a document. -/
inductive Flaw where
  | unknownMarkup
  | instructionUnclosed
  | commentUnclosed
  | doctypeUnclosed
  | sectionUnclosed
  | tagUnclosed
  | doctypeUnnamed
  | endWithoutStart (found : String)
  | endOfAnother (expected found : String)
deriving DecidableEq, Repr

/-- What is wrong, in words. -/
def Flaw.message : Flaw → String
  | .unknownMarkup => "syntax error: unknown or missed symbol in markup"
  | .instructionUnclosed =>
    "syntax error: processing instruction or xml declaration not closed: `?>` not found before end of input"
  | .commentUnclosed => "syntax error: comment not closed: `-->` not found before end of input"
  | .doctypeUnclosed => "syntax error: DOCTYPE not closed: `>` not found before end of input"
  | .sectionUnclosed => "syntax error: CDATA not closed: `]]>` not found before end of input"
  | .tagUnclosed => "syntax error: tag not closed: `>` not found before end of input"
  | .doctypeUnnamed =>
    "ill-formed document: `<!DOCTYPE>` declaration does not contain a name of a document type"
  | .endWithoutStart found =>
    s!"ill-formed document: close tag `</{found}>` does not match any open tag"
  | .endOfAnother expected found =>
    s!"ill-formed document: expected `</{expected}>`, but `</{found}>` was found"

/-- A piece of a document. -/
inductive Token where
  /-- Characters between tags, not yet unescaped. -/
  | text (raw : List Char)
  /-- A literal section. -/
  | literal (content : List Char)
  /-- A start tag, without its brackets. -/
  | startTag (content : List Char)
  /-- A tag of an element without content. -/
  | emptyTag (content : List Char)
  /-- An end tag, by its name. -/
  | endTag (name : List Char)
  /-- A comment, an instruction or a document type. -/
  | skipped
deriving DecidableEq, Repr

/-- A token, cut off. -/
structure Cut where
  token : Token
  /-- Number of bytes from the opening bracket to the closing one. -/
  width : Nat
  /-- What comes behind it. -/
  rest : List Char

/-! ### Where a token ends -/

/-- The characters before the first `mark`, and those behind it. -/
def splitAtMark (mark : List Char) : List Char → Option (List Char × List Char)
  | [] => none
  | c :: cs =>
    match mark.isPrefixOf? (c :: cs) with
    | some rest => some ([], rest)
    | none => (splitAtMark mark cs).map fun (content, rest) => (c :: content, rest)

/-- The characters before the first closing bracket outside quotes, and those
behind it; `quote` is the quote that is open. -/
def splitTag (quote : Option Char) : List Char → Option (List Char × List Char)
  | [] => none
  | c :: cs =>
    let further (quote : Option Char) :=
      (splitTag quote cs).map fun (content, rest) => (c :: content, rest)
    match quote with
    | some q => further (if c = q then none else quote)
    | none =>
      if c = '>' then some ([], cs)
      else further (if c = '"' ∨ c = '\'' then some c else none)

/-- The characters before the closing bracket that matches, and those behind
it; `depth` brackets are open inside. -/
def splitDoctype (depth : Nat) : List Char → Option (List Char × List Char)
  | [] => none
  | c :: cs =>
    let further (depth : Nat) :=
      (splitDoctype depth cs).map fun (content, rest) => (c :: content, rest)
    if c = '>' then
      match depth with
      | 0 => some ([], cs)
      | depth + 1 => further depth
    else
      further (if c = '<' then depth + 1 else depth)

/-! ### Tokens of each kind

Each function gets the characters behind the opening bracket.  An error is a
flaw with its distance in bytes from that bracket. -/

/-- Drop blanks at the end, unless there is nothing else. -/
def endTagName (cs : List Char) : List Char :=
  let name := Text.dropEndWhile isSpace cs
  if name.isEmpty then cs else name

/-- A literal section. -/
def cutLiteral (cs : List Char) : Except (Nat × Flaw) Cut :=
  match "![CDATA[".toList.isPrefixOf? cs with
  | none => .error (0, .sectionUnclosed)
  | some body =>
    match splitAtMark "]]>".toList body with
    | none => .error (0, .sectionUnclosed)
    | some (content, rest) => .ok ⟨.literal content, 12 + Text.byteLength content, rest⟩

/-- A comment. -/
def cutComment (cs : List Char) : Except (Nat × Flaw) Cut :=
  match "!--".toList.isPrefixOf? cs with
  | none => .error (0, .commentUnclosed)
  | some body =>
    match splitAtMark "-->".toList body with
    | none => .error (0, .commentUnclosed)
    | some (content, rest) => .ok ⟨.skipped, 7 + Text.byteLength content, rest⟩

/-- A document type, which must have a name. -/
def cutDoctype (cs : List Char) : Except (Nat × Flaw) Cut :=
  match splitDoctype 0 cs with
  | none => .error (0, .doctypeUnclosed)
  | some (content, rest) =>
    if (content.take 8).map Char.toUpper = "!DOCTYPE".toList then
      if (content.drop 8).all isSpace then
        .error (1 + Text.byteLength content, .doctypeUnnamed)
      else
        .ok ⟨.skipped, 2 + Text.byteLength content, rest⟩
    else
      .error (0, .doctypeUnclosed)

/-- An instruction, from behind its question mark. -/
def cutInstruction (cs : List Char) : Except (Nat × Flaw) Cut :=
  if cs.head? = some '>' then
    .error (0, .instructionUnclosed)
  else
    match splitAtMark "?>".toList cs with
    | none => .error (0, .instructionUnclosed)
    | some (content, rest) => .ok ⟨.skipped, 4 + Text.byteLength content, rest⟩

/-- An end tag, from behind its slash. -/
def cutEndTag (cs : List Char) : Except (Nat × Flaw) Cut :=
  match splitTag none cs with
  | none => .error (0, .tagUnclosed)
  | some (content, rest) =>
    .ok ⟨.endTag (endTagName content), 3 + Text.byteLength content, rest⟩

/-- A start tag, which a slash at its end makes complete. -/
def cutStartTag (cs : List Char) : Except (Nat × Flaw) Cut :=
  match splitTag none cs with
  | none => .error (0, .tagUnclosed)
  | some (content, rest) =>
    let token : Token :=
      if content.getLast? = some '/' then .emptyTag content.dropLast else .startTag content
    .ok ⟨token, 2 + Text.byteLength content, rest⟩

/-- The token behind an opening bracket. -/
def cutMarkup : List Char → Except (Nat × Flaw) Cut
  | '!' :: '[' :: cs => cutLiteral ('!' :: '[' :: cs)
  | '!' :: '-' :: cs => cutComment ('!' :: '-' :: cs)
  | '!' :: 'D' :: cs => cutDoctype ('!' :: 'D' :: cs)
  | '!' :: 'd' :: cs => cutDoctype ('!' :: 'd' :: cs)
  | '!' :: _ => .error (0, .unknownMarkup)
  | '?' :: cs => cutInstruction cs
  | '/' :: cs => cutEndTag cs
  | cs => cutStartTag cs

/-! ### What is left becomes shorter -/

theorem isPrefixOf?_length {mark cs rest : List Char} (h : mark.isPrefixOf? cs = some rest) :
    rest.length ≤ cs.length := by
  induction mark generalizing cs with
  | nil =>
    have hsame : cs = rest := Option.some.inj h
    exact Nat.le_of_eq (congrArg List.length hsame.symm)
  | cons m mark ih =>
    cases cs with
    | nil => cases h
    | cons c cs =>
      change (if m == c then mark.isPrefixOf? cs else none) = some rest at h
      split at h
      · have := ih h
        simp only [List.length_cons]
        omega
      · simp at h

/-- Another character in front of the content does not change what is left. -/
theorem length_of_map_cons {cut : Option (List Char × List Char)} {c : Char}
    {cs content rest : List Char}
    (hcut : ∀ content', cut = some (content', rest) → rest.length ≤ cs.length)
    (h : cut.map (fun (content, rest) => (c :: content, rest)) = some (content, rest)) :
    rest.length ≤ (c :: cs).length := by
  simp only [Option.map_eq_some_iff, Prod.exists, Prod.mk.injEq] at h
  obtain ⟨content', rest', h', -, rfl⟩ := h
  exact Nat.le_succ_of_le (hcut content' h')

theorem splitAtMark_length {mark cs content rest : List Char}
    (h : splitAtMark mark cs = some (content, rest)) : rest.length ≤ cs.length := by
  induction cs generalizing content with
  | nil => simp [splitAtMark] at h
  | cons c cs ih =>
    simp only [splitAtMark] at h
    split at h
    · next hm =>
      simp only [Option.some.injEq, Prod.mk.injEq] at h
      obtain ⟨-, rfl⟩ := h
      exact isPrefixOf?_length hm
    · exact length_of_map_cons (fun _ => ih) h

theorem splitTag_length {quote : Option Char} {cs content rest : List Char}
    (h : splitTag quote cs = some (content, rest)) : rest.length ≤ cs.length := by
  induction cs generalizing quote content with
  | nil => simp [splitTag] at h
  | cons c cs ih =>
    simp only [splitTag] at h
    split at h
    -- inside quotes, at the end of the tag, and outside quotes
    · exact length_of_map_cons (fun _ => ih) h
    · split at h
      · simp only [Option.some.injEq, Prod.mk.injEq] at h
        obtain ⟨-, rfl⟩ := h
        simp
      · exact length_of_map_cons (fun _ => ih) h

theorem splitDoctype_length {depth : Nat} {cs content rest : List Char}
    (h : splitDoctype depth cs = some (content, rest)) : rest.length ≤ cs.length := by
  induction cs generalizing depth content with
  | nil => simp [splitDoctype] at h
  | cons c cs ih =>
    simp only [splitDoctype] at h
    split at h
    · split at h
      · simp only [Option.some.injEq, Prod.mk.injEq] at h
        obtain ⟨-, rfl⟩ := h
        simp
      · exact length_of_map_cons (fun _ => ih) h
    · exact length_of_map_cons (fun _ => ih) h

theorem cutLiteral_length {cs : List Char} {c : Cut} (h : cutLiteral cs = .ok c) :
    c.rest.length ≤ cs.length := by
  simp only [cutLiteral] at h
  split at h
  · simp at h
  · next hp =>
    split at h
    · simp at h
    · next hs =>
      simp only [Except.ok.injEq] at h
      subst h
      exact Nat.le_trans (splitAtMark_length hs) (isPrefixOf?_length hp)

theorem cutComment_length {cs : List Char} {c : Cut} (h : cutComment cs = .ok c) :
    c.rest.length ≤ cs.length := by
  simp only [cutComment] at h
  split at h
  · simp at h
  · next hp =>
    split at h
    · simp at h
    · next hs =>
      simp only [Except.ok.injEq] at h
      subst h
      exact Nat.le_trans (splitAtMark_length hs) (isPrefixOf?_length hp)

theorem cutDoctype_length {cs : List Char} {c : Cut} (h : cutDoctype cs = .ok c) :
    c.rest.length ≤ cs.length := by
  simp only [cutDoctype] at h
  split at h
  · simp at h
  · next hs =>
    split at h
    · split at h
      · simp at h
      · simp only [Except.ok.injEq] at h
        subst h
        exact splitDoctype_length hs
    · simp at h

theorem cutInstruction_length {cs : List Char} {c : Cut} (h : cutInstruction cs = .ok c) :
    c.rest.length ≤ cs.length := by
  simp only [cutInstruction] at h
  split at h
  · simp at h
  · split at h
    · simp at h
    · next hs =>
      simp only [Except.ok.injEq] at h
      subst h
      exact splitAtMark_length hs

theorem cutEndTag_length {cs : List Char} {c : Cut} (h : cutEndTag cs = .ok c) :
    c.rest.length ≤ cs.length := by
  simp only [cutEndTag] at h
  split at h
  · simp at h
  · next hs =>
    simp only [Except.ok.injEq] at h
    subst h
    exact splitTag_length hs

theorem cutStartTag_length {cs : List Char} {c : Cut} (h : cutStartTag cs = .ok c) :
    c.rest.length ≤ cs.length := by
  simp only [cutStartTag] at h
  split at h
  · simp at h
  · next hs =>
    simp only [Except.ok.injEq] at h
    subst h
    exact splitTag_length hs

theorem cutMarkup_length {cs : List Char} {c : Cut} (h : cutMarkup cs = .ok c) :
    c.rest.length ≤ cs.length := by
  unfold cutMarkup at h
  split at h
  · exact cutLiteral_length h
  · exact cutComment_length h
  · exact cutDoctype_length h
  · exact cutDoctype_length h
  · simp at h
  · have := cutInstruction_length h
    simp only [List.length_cons]
    omega
  · have := cutEndTag_length h
    simp only [List.length_cons]
    omega
  · exact cutStartTag_length h

/-! ### All tokens -/

/-- A token and the position of its first byte. -/
structure Lexeme where
  position : Nat
  token : Token
deriving DecidableEq, Repr

/-- The tokens of a text that begins at a position, up to the first flaw, and
that flaw with its position. -/
def lex (position : Nat) (cs : List Char) : List Lexeme × Option (Nat × Flaw) :=
  let start := position + Text.byteLength (cs.takeWhile isSpace)
  match _h : cs.dropWhile isSpace with
  | [] => ([], none)
  | c :: rest =>
    if c = '<' then
      match _hc : cutMarkup rest with
      | .error (distance, flaw) => ([], some (start + distance, flaw))
      | .ok cut =>
        let (lexemes, flaw) := lex (start + cut.width) cut.rest
        (⟨start, cut.token⟩ :: lexemes, flaw)
    else
      -- a text runs to the next opening bracket, or to the end
      let inText := fun d => d != '<'
      let raw := c :: rest.takeWhile inText
      let (lexemes, flaw) := lex (start + Text.byteLength raw) (rest.dropWhile inText)
      (⟨start, .text (Text.dropEndWhile isSpace raw)⟩ :: lexemes, flaw)
termination_by cs.length
decreasing_by
  · have h1 := length_dropWhile_le isSpace cs
    have h2 := cutMarkup_length _hc
    rw [_h] at h1
    simp only [List.length_cons] at h1
    omega
  · have h1 := length_dropWhile_le isSpace cs
    have h2 := length_dropWhile_le (fun d => d != '<') rest
    rw [_h] at h1
    simp only [List.length_cons] at h1
    omega

/-- The mark of the byte order, which may stand before a document and is not
part of it. -/
def byteOrderMark : Char := '\uFEFF'

/-- The tokens of a document. -/
def tokens (text : String) : List Lexeme × Option (Nat × Flaw) :=
  match text.toList with
  | c :: cs => if c = byteOrderMark then lex 0 cs else lex 0 (c :: cs)
  | [] => ([], none)

end Scene.Markup

/-
Events: what tokens say about the tree.

An event opens an element, closes one, or adds text to the one that is open.
Making an event from a token unescapes texts, reads the attributes of tags, and
checks that an end tag closes the innermost element that is open.  The last is
the only thing that depends on earlier events, and only through the names of
the elements they left open.
-/
import Scene.Markup.Token

namespace Scene.Markup

/-- Why a text is no document. -/
inductive MarkupError where
  /-- Its form is wrong at a position. -/
  | malformed (position : Nat) (flaw : Flaw)
  /-- An attribute of a tag is wrong. -/
  | inAttribute (tag : String) (e : AttributeError)
  /-- A reference in a text is wrong. -/
  | inText (e : ReferenceError)
  /-- An end event came where no element is open. -/
  | unexpectedEnd (tag : String)
  /-- An element is still open at the end. -/
  | unterminated (tag : String)
  /-- There is no element at all. -/
  | noRoot
  /-- An element comes after the first one is complete. -/
  | secondRoot (tag : String)
deriving DecidableEq, Repr

/-- What is wrong, in words. -/
def MarkupError.message : MarkupError → String
  | .malformed position flaw => s!"XML parse error at position {position}: {flaw.message}"
  | .inAttribute tag e => e.message tag
  | .inText e => "invalid text content: " ++ e.message
  | .unexpectedEnd tag => s!"unexpected closing tag </{tag}>"
  | .unterminated tag => s!"unterminated element <{tag}>"
  | .noRoot => "document has no root element"
  | .secondRoot tag =>
    s!"multiple root elements: found <{tag}> after the document root"

/-- A step in the making of a tree. -/
inductive Event where
  /-- Opens an element. -/
  | start (tag : String) (attributes : List (String × String))
  /-- Adds an element without content. -/
  | empty (tag : String) (attributes : List (String × String))
  /-- Closes the innermost open element. -/
  | finish (tag : String)
  /-- Adds text. -/
  | text (content : String)
  /-- Adds the text of a literal section. -/
  | literal (content : String)
  /-- Adds nothing. -/
  | skipped
deriving DecidableEq, Repr

namespace Event

/-- The event of a tag that opens an element or adds an empty one. -/
def ofTag (make : String → List (String × String) → Event) (content : List Char) :
    Except MarkupError Event :=
  let tag := String.ofList (tagName content)
  match tagAttributes content with
  | .ok attributes => .ok (make tag attributes)
  | .error e => .error (.inAttribute tag e)

/-- The event of an end tag, which must close the innermost of the elements
that are open. -/
def ofEndTag (opened : List String) (position : Nat) (name : List Char) :
    Except MarkupError Event :=
  let found := String.ofList name
  match opened with
  | [] => .error (.malformed position (.endWithoutStart found))
  | expected :: _ =>
    if expected = found then .ok (.finish found)
    else .error (.malformed position (.endOfAnother expected found))

/-- The event of a token, given the tags of the open elements, innermost
first. -/
def ofLexeme (opened : List String) (l : Lexeme) : Except MarkupError Event :=
  match l.token with
  | .text raw =>
    match unescape raw with
    | .ok content => .ok (.text (String.ofList content))
    | .error e => .error (.inText e)
  | .literal content => .ok (.literal (String.ofList content))
  | .startTag content => ofTag .start content
  | .emptyTag content => ofTag .empty content
  | .endTag name => ofEndTag opened l.position name
  | .skipped => .ok .skipped

/-- The tags of the open elements after an event. -/
def opened (before : List String) : Event → List String
  | .start tag _ => tag :: before
  | .finish _ => before.tail
  | _ => before

/-- The events of tokens, up to the first error, and that error. -/
def ofLexemes (before : List String) : List Lexeme → List Event × Option MarkupError
  | [] => ([], none)
  | l :: ls =>
    match ofLexeme before l with
    | .error e => ([], some e)
    | .ok event =>
      let (events, e) := ofLexemes (opened before event) ls
      (event :: events, e)

/-- The events of a document, up to the first error, and that error. -/
def ofDocument (document : String) : List Event × Option MarkupError :=
  let (lexemes, flaw) := tokens document
  let (events, e) := ofLexemes [] lexemes
  (events, e.or (flaw.map fun (position, flaw) => .malformed position flaw))

end Event

end Scene.Markup

/-
From events to a tree.

The tree is built on a stack of the elements that are open, innermost first.
An element that is closed becomes the last child of the next one, and the one
that is closed last is the root; there can be only one.

Texts that stand directly in an element are trimmed and joined with one space,
so texts that a comment or a child divides stay divided.  Text outside the root
is dropped and remembered, for the log.
-/
import Scene.Diagnostic.Report
import Scene.Markup.Element
import Scene.Markup.Event

namespace Scene.Markup

/-- A tree that is not complete. -/
structure Builder where
  /-- The open elements, innermost first. -/
  stack : List Element := []
  /-- The complete root. -/
  root : Option Element := none
  /-- Texts that stood outside the root. -/
  stray : List String := []

namespace Builder

/-- Add a segment of text to an element. -/
def addText (segment : String) (e : Element) : Element :=
  match e.text with
  | some before => { e with text := some (before ++ " " ++ segment) }
  | none => { e with text := some segment }

/-- Add a text, trimmed, where it stands. -/
def appendText (b : Builder) (content : String) : Builder :=
  let segment := Text.trim content
  if segment.isEmpty then
    b
  else
    match b.stack with
    | [] => { b with stray := b.stray ++ [segment] }
    | top :: below => { b with stack := addText segment top :: below }

/-- Put a complete element where it belongs. -/
def attach (b : Builder) (e : Element) : Except MarkupError Builder :=
  match b.stack with
  | parent :: below => .ok { b with stack := parent.push e :: below }
  | [] =>
    match b.root with
    | none => .ok { b with root := some e }
    | some _ => .error (.secondRoot e.tag)

/-- What an event does. -/
def step (b : Builder) : Event → Except MarkupError Builder
  | .start tag attributes => .ok { b with stack := { tag, attributes } :: b.stack }
  | .empty tag attributes => b.attach { tag, attributes }
  | .finish tag =>
    match b.stack with
    | [] => .error (.unexpectedEnd tag)
    | e :: below => { b with stack := below }.attach e
  | .text content => .ok (b.appendText content)
  | .literal content => .ok (b.appendText content)
  | .skipped => .ok b

/-- What events do, up to the first error, and that error. -/
def run (b : Builder) : List Event → Builder × Option MarkupError
  | [] => (b, none)
  | e :: es =>
    match b.step e with
    | .ok b' => b'.run es
    | .error err => (b, some err)

/-- The tree, if it is complete. -/
def result (b : Builder) : Except MarkupError Element :=
  match b.stack with
  | e :: _ => .error (.unterminated e.tag)
  | [] =>
    match b.root with
    | some root => .ok root
    | none => .error .noRoot

end Builder

/-- The tree of complete events. -/
def treeOfEvents (events : List Event) : Except MarkupError Element :=
  match ({} : Builder).run events with
  | (_, some e) => .error e
  | (b, none) => b.result

/-- Read a document.  The reports are remarks about texts outside its root,
which are made also if it cannot be read. -/
def readDocument (document : String) : Reported (Except MarkupError Element) :=
  let (events, late) := Event.ofDocument document
  let (b, early) := ({} : Builder).run events
  { value :=
      -- what the builder met comes before what ended the events
      match early.or late with
      | some e => .error e
      | none => b.result
    reports := b.stray.map fun text =>
      .remark "ignoring text outside of the root element" [("text", text)] }

end Scene.Markup

namespace Scene

/-- Read a document, and leave the remarks. -/
def Element.ofDocument (document : String) : Except Error Element :=
  (Markup.readDocument document).value.mapError fun e => .parse e.message

end Scene

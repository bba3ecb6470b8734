/-
Writing a tree as a document.

Every tag stands on a line of its own, two spaces further in than the tag
around it.  Only text keeps the next tag on its line: a line break after it
would be read as no part of it, but one before an end tag would separate the
two for a human reader.  So the first child of an element with text, or its end
tag if there is no child, follows the text at once.

An element with neither text nor children is written as one tag.  An empty
text is a text.
-/
import Scene.Markup.Element
import Scene.Markup.Entity

namespace Scene.Element

open Scene.Markup

/-- What stands before every document. -/
def declaration : String := "<?xml version=\"1.0\"?>"

/-- A line break, and the indentation of a depth. -/
def lineBreak (depth : Nat) : List Char := '\n' :: List.replicate (2 * depth) ' '

/-- The attributes of a tag. -/
def attributeChars (attributes : List (String × String)) : List Char :=
  attributes.flatMap fun (name, value) =>
    ' ' :: name.toList ++ '=' :: '"' :: escape value.toList ++ ['"']

mutual

/-- An element at a depth, from the bracket of its first tag to that of its
last, in front of `rest`. -/
def chars (depth : Nat) (rest : List Char) : Element → List Char
  | ⟨tag, attributes, text, children⟩ =>
    let name := tag.toList
    if text.isNone && children.isEmpty then
      '<' :: (name ++ (attributeChars attributes ++ '/' :: '>' :: rest))
    else
      let ending := '<' :: '/' :: (name ++ '>' :: rest)
      let ending := if children.isEmpty then ending else lineBreak depth ++ ending
      let content := escape (text.getD "").toList
        ++ childrenChars (depth + 1) ending text.isNone children
      '<' :: (name ++ (attributeChars attributes ++ '>' :: content))

/-- Elements at a depth, each on a new line, in front of `rest`; `broken` says
whether the first one is on a new line, too. -/
def childrenChars (depth : Nat) (rest : List Char) (broken : Bool) : List Element → List Char
  | [] => rest
  | c :: cs =>
    let element := chars depth (childrenChars depth rest true cs) c
    if broken then lineBreak depth ++ element else element

end

/-- An element as a document. -/
def toDocument (e : Element) : String :=
  declaration ++ String.ofList (lineBreak 0 ++ e.chars 0 [])

end Scene.Element

/-
Elements: the tree that a marked-up text stands for.

An element has a tag, attributes, a text and children.  Attributes keep the
order in which their names were first set, and no name occurs twice among
attributes that were set with `setAttribute`.  The text of an element stands
apart from its children, so where in between them it was written is not kept.
-/

namespace Scene

/-- An element of a document. -/
structure Element where
  tag : String
  attributes : List (String × String) := []
  text : Option String := none
  children : List Element := []
deriving Repr, Inhabited

namespace Element

/-! ### Equality -/

mutual

/-- Whether two elements agree in all parts. -/
def beq : Element → Element → Bool
  | ⟨tag, attributes, text, children⟩, ⟨tag', attributes', text', children'⟩ =>
    tag == tag' && attributes == attributes' && text == text' && beqAll children children'

/-- Whether two rows of elements agree one by one. -/
def beqAll : List Element → List Element → Bool
  | [], [] => true
  | c :: cs, d :: ds => beq c d && beqAll cs ds
  | _, _ => false

end

instance : BEq Element := ⟨beq⟩

/-! ### Attributes -/

/-- The value of an attribute. -/
def attribute? (e : Element) (name : String) : Option String :=
  (e.attributes.find? fun a => a.1 == name).map Prod.snd

/-- Replace the value of the first attribute of a name, or add the attribute
at the end. -/
def putAttribute (name value : String) : List (String × String) → List (String × String)
  | [] => [(name, value)]
  | a :: rest => if a.1 == name then (a.1, value) :: rest else a :: putAttribute name value rest

/-- Set an attribute. -/
def setAttribute (e : Element) (name value : String) : Element :=
  { e with attributes := putAttribute name value e.attributes }

/-! ### Children -/

/-- The first child with a tag. -/
def child? (e : Element) (tag : String) : Option Element :=
  e.children.find? fun c => c.tag == tag

/-- The children with a tag. -/
def childrenNamed (e : Element) (tag : String) : List Element :=
  e.children.filter fun c => c.tag == tag

/-- Whether there is a child with a tag. -/
def hasChild (e : Element) (tag : String) : Bool := (e.child? tag).isSome

/-- The text of the first child with a tag. -/
def childText? (e : Element) (tag : String) : Option String :=
  (e.child? tag).bind Element.text

/-- Add a child at the end. -/
def push (e : Element) (child : Element) : Element :=
  { e with children := e.children ++ [child] }

/-- The tag, and the name if there is one: how messages refer to an element. -/
def describe (e : Element) : String :=
  match e.attribute? "name" with
  | some name => s!"{e.tag} '{name}'"
  | none => e.tag

end Element

end Scene

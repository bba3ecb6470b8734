/-
What can be wrong with a scene description.

An error is a cause, with the names and texts that belong to it.  Two views
are taken of it: its code, by which errors are told apart, and its message, in
which the names are quoted.  Both are functions of the cause, so no two places
can word the same cause differently.

Nothing stops at the first error: operations that can fail collect a list of
them, in the order in which they were met.
-/
import Scene.Number.Shortest

namespace Scene

/-- The kinds of errors. -/
inductive ErrorCode where
  | parseError
  | elementIncorrectType
  | elementMissing
  | elementInvalid
  | attributeMissing
  | attributeInvalid
  | duplicateName
  | reservedName
  | frameNameNotFound
  | poseCycleDetected
  | frameAttachedToInvalid
  | frameAttachedToCycle
  | jointChildLinkInvalid
  | jointParentSameAsChild
  | linkInertiaInvalid
  | modelWithoutLink
  | modelCanonicalLinkInvalid
deriving DecidableEq, Repr

namespace ErrorCode

/-- Every code, in the order of the type. -/
def all : List ErrorCode :=
  [.parseError, .elementIncorrectType, .elementMissing, .elementInvalid, .attributeMissing,
    .attributeInvalid, .duplicateName, .reservedName, .frameNameNotFound, .poseCycleDetected,
    .frameAttachedToInvalid, .frameAttachedToCycle, .jointChildLinkInvalid,
    .jointParentSameAsChild, .linkInertiaInvalid, .modelWithoutLink,
    .modelCanonicalLinkInvalid]

/-- The name of a code. -/
def text : ErrorCode → String
  | .parseError => "PARSE_ERROR"
  | .elementIncorrectType => "ELEMENT_INCORRECT_TYPE"
  | .elementMissing => "ELEMENT_MISSING"
  | .elementInvalid => "ELEMENT_INVALID"
  | .attributeMissing => "ATTRIBUTE_MISSING"
  | .attributeInvalid => "ATTRIBUTE_INVALID"
  | .duplicateName => "DUPLICATE_NAME"
  | .reservedName => "RESERVED_NAME"
  | .frameNameNotFound => "FRAME_NAME_NOT_FOUND"
  | .poseCycleDetected => "POSE_CYCLE_DETECTED"
  | .frameAttachedToInvalid => "FRAME_ATTACHED_TO_INVALID"
  | .frameAttachedToCycle => "FRAME_ATTACHED_TO_CYCLE"
  | .jointChildLinkInvalid => "JOINT_CHILD_LINK_INVALID"
  | .jointParentSameAsChild => "JOINT_PARENT_SAME_AS_CHILD"
  | .linkInertiaInvalid => "LINK_INERTIA_INVALID"
  | .modelWithoutLink => "MODEL_WITHOUT_LINK"
  | .modelCanonicalLinkInvalid => "MODEL_CANONICAL_LINK_INVALID"

end ErrorCode

/-! ### Causes -/

/-- What is wrong. -/
inductive Error where
  /-- A problem that no other cause names, in its own words. -/
  | other (code : ErrorCode) (message : String)
  /-- The text is no well-formed markup. -/
  | parse (message : String)
  /-- The document element has the wrong tag. -/
  | notADocument (tag : String)
  /-- A required child is missing. -/
  | missingElement (element context : String)
  /-- A required attribute is missing. -/
  | missingAttribute (name element : String)
  /-- A child cannot be used. -/
  | invalidElement (element context message : String)
  /-- An attribute cannot be used. -/
  | invalidAttribute (name element message : String)
  /-- A sibling of the same kind has the name already. -/
  | duplicateName (kind name : String)
  /-- The name belongs to a frame that the format defines itself. -/
  | reservedName (kind name : String)
  /-- A frame of the scope has the name already. -/
  | frameNameTaken (name scope : String)
  /-- A frame that something refers to does not exist. -/
  | frameNotFound (name context : String)
  /-- Following `relative_to` comes back to a frame of the path. -/
  | poseCycle (path : List String)
  /-- A frame that something is attached to does not exist. -/
  | attachedToNotFound (name scope : String)
  /-- Following `attached_to` comes back to a frame of the path. -/
  | attachedToCycle (path : List String)
  /-- The child of a joint is no link or nested model. -/
  | jointChildInvalid (child joint model : String)
  /-- A joint joins a body to itself. -/
  | jointParentIsChild (joint child : String)
  /-- A mass is not positive or not finite. -/
  | massInvalid (link : String) (mass : Float)
  /-- A moment of inertia is infinite or NaN. -/
  | inertiaNotFinite (link : String)
  /-- A principal moment of inertia is negative. -/
  | inertiaNegative (link : String)
  /-- A model that may move has no body. -/
  | modelWithoutLink (model : String)
  /-- The canonical link of a model is none of its links. -/
  | canonicalLinkInvalid (link model : String)
  /-- An axis has no direction. -/
  | axisWithoutDirection
deriving DecidableEq, Repr

/-- Several errors, in the order in which they were met. -/
abbrev Errors := List Error

namespace Error

/-- Names with arrows between them. -/
def textOfPath (path : List String) : String := " -> ".intercalate path

/-- The kind of a cause. -/
def code : Error → ErrorCode
  | .other code _ => code
  | .parse _ => .parseError
  | .notADocument _ => .elementIncorrectType
  | .missingElement .. => .elementMissing
  | .missingAttribute .. => .attributeMissing
  | .invalidElement .. => .elementInvalid
  | .invalidAttribute .. => .attributeInvalid
  | .duplicateName .. => .duplicateName
  | .reservedName .. => .reservedName
  | .frameNameTaken .. => .duplicateName
  | .frameNotFound .. => .frameNameNotFound
  | .poseCycle _ => .poseCycleDetected
  | .attachedToNotFound .. => .frameAttachedToInvalid
  | .attachedToCycle _ => .frameAttachedToCycle
  | .jointChildInvalid .. => .jointChildLinkInvalid
  | .jointParentIsChild .. => .jointParentSameAsChild
  | .massInvalid .. => .linkInertiaInvalid
  | .inertiaNotFinite _ => .linkInertiaInvalid
  | .inertiaNegative _ => .linkInertiaInvalid
  | .modelWithoutLink _ => .modelWithoutLink
  | .canonicalLinkInvalid .. => .modelCanonicalLinkInvalid
  | .axisWithoutDirection => .elementInvalid

/-- The cause in words. -/
def message : Error → String
  | .other _ message => message
  | .parse message => message
  | .notADocument tag => s!"root element is <{tag}>, expected <sdf>"
  | .missingElement element context => s!"missing required element <{element}> in {context}"
  | .missingAttribute name element =>
    s!"a {element} {name} is required, but the {name} is not set"
  | .invalidElement element context message => s!"invalid <{element}> in {context}: {message}"
  | .invalidAttribute name element message =>
    s!"invalid value for {name} on {element}: {message}"
  | .duplicateName kind name => s!"{kind} with name [{name}] already exists"
  | .reservedName kind name => s!"the supplied {kind} name [{name}] is reserved"
  | .frameNameTaken name scope =>
    s!"frame name [{name}] is used by more than one element in scope [{scope}]"
  | .frameNotFound name context =>
    s!"frame [{name}] referenced by {context} does not exist in scope"
  | .poseCycle path => "relative_to cycle detected: " ++ textOfPath path
  | .attachedToNotFound name scope =>
    s!"attached_to name [{name}] does not exist in scope [{scope}]"
  | .attachedToCycle path => "attached_to cycle detected: " ++ textOfPath path
  | .jointChildInvalid child joint model =>
    s!"child [{child}] of joint [{joint}] is not a link of model [{model}]"
  | .jointParentIsChild joint child =>
    s!"joint [{joint}] has the same parent and child [{child}]"
  | .massInvalid link mass => s!"link '{link}' has invalid mass " ++ Number.textOfFloat mass
  | .inertiaNotFinite link => s!"link '{link}' has non-finite inertia values"
  | .inertiaNegative link => s!"link '{link}' inertia diagonal elements must be non-negative"
  | .modelWithoutLink model => s!"{model} must have at least one link or nested model"
  | .canonicalLinkInvalid link model =>
    s!"canonical_link [{link}] of model [{model}] is not a link of the model"
  | .axisWithoutDirection => "The norm of the xyz vector cannot be zero"

/-- The code and the message. -/
def display (e : Error) : String := s!"[{e.code.text}] {e.message}"

end Error

end Scene

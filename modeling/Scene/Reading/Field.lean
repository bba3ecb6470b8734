/-
Reading the fields of an object from its element.

Every reader gives what it can and reports the rest.  A field that is missing
keeps its default, and so does one that cannot be read, after an error.  Only
an object that cannot exist without a field, such as one without a name, is not
read at all.

Children of unknown tags are reported one by one, those with a colon in the tag
excepted: they belong to someone else.
-/
import Scene.Diagnostic.Report
import Scene.Object.Named
import Scene.Markup.Element
import Scene.Value.Readable

namespace Scene.Element

variable {α : Type}

/-! ### Fields -/

/-- Read the text of a child, if there is one. -/
def readWith (e : Element) (tag : String) (read : String → Except String α) :
    Reported (Option α) :=
  match e.child? tag with
  | none => pure none
  | some c =>
    -- a child without text is read as an empty text
    match read (c.text.getD "") with
    | .ok v => pure (some v)
    | .error message => do
      Reported.fail (.invalidElement tag e.describe message)
      pure none

/-- Read the value of a child, if there is one. -/
def readValue [Readable α] (e : Element) (tag : String) : Reported (Option α) :=
  e.readWith tag Readable.read

/-- Read the value of a child, or give a default. -/
def readValueD [Readable α] (e : Element) (tag : String) (default : α) : Reported α := do
  return (← e.readValue tag).getD default

/-- Read the value of a child that must be there. -/
def requireValue [Readable α] (e : Element) (tag : String) : Reported (Option α) :=
  if e.hasChild tag then
    e.readValue tag
  else do
    Reported.fail (.missingElement tag e.describe)
    pure none

/-- Read a flag, or give a default. -/
def readFlagD (e : Element) (tag : String) (default : Bool) : Reported Bool := do
  let flag ← e.readWith tag fun text =>
    match readFlag? text with
    | some b => .ok b
    | none => .error s!"'{text}' is not a boolean"
  return flag.getD default

/-- Read the text of a child that must be there and not be empty. -/
def requireText (e : Element) (tag : String) : Reported (Option String) :=
  match e.childText? tag with
  | some text => if text = "" then missing else pure (some text)
  | none => missing
where
  missing : Reported (Option String) := do
    Reported.fail (.missingElement tag e.describe)
    pure none

/-- Read a child as a whole, or give a default. -/
def readChildD (e : Element) (tag : String) (default : α) (read : Element → Reported α) :
    Reported α :=
  match e.child? tag with
  | none => pure default
  | some c => read c

/-- Read a share of the whole, or give a default; any number is taken, but one
that is no share looks wrong. -/
def readShareD (e : Element) (tag : String) (default : Float) : Reported Float := do
  match ← e.readValue tag with
  | none => pure default
  | some (x : Float) =>
    if 0 ≤ x ∧ x ≤ 1 then
      pure x
    else
      Reported.warn (s!"{tag} in {e.describe} should lie in [0, 1], got " ++ Number.textOfFloat x)
      pure x

/-! ### Names -/

/-- Whether a name is one of those that the format gives to frames itself. -/
def isReservedName (name : String) : Bool :=
  name == worldFrame
    || (4 < name.utf8ByteSize && "__".toList.isPrefixOf name.toList
      && "__".toList.isSuffixOf name.toList)

/-- Read the name that an object must have. -/
def readName (e : Element) : Reported (Option String) :=
  match e.attribute? "name" with
  | some name => if name = "" then missing else pure (some name)
  | none => missing
where
  missing : Reported (Option String) := do
    Reported.fail (.missingAttribute "name" e.tag)
    pure none

/-- Read the name that an object must have and that must not be reserved. -/
def readFrameName (e : Element) : Reported (Option String) := do
  match ← e.readName with
  | none => pure none
  | some name =>
    if isReservedName name then
      Reported.fail (.reservedName e.tag name)
      pure none
    else
      pure (some name)

/-! ### Places -/

/-- Radians of an angle in degrees. -/
def radians (degrees : Float) : Float := degrees * Float.ofBits 0x3F91DF46A2529D39

/-- The number that a word of a pose spells. -/
def poseNumber (word : String) : Except String Float :=
  match Number.float? word with
  | some x => .ok x
  | none => .error s!"invalid number '{word}'"

/-- The value of a pose element with a text: a position and three angles, in
radians or in degrees, or a position and a quaternion with its real part last,
which need not have norm one. -/
def poseOfText (e : Element) (text : String) : Except String (Pose Float) := do
  -- a bad number is an error in any format, known or not
  let values ← (Text.words text).mapM poseNumber
  match (e.attribute? "rotation_format").getD "euler_rpy" with
  | "euler_rpy" =>
    match values with
    | [x, y, z, roll, pitch, yaw] =>
      if (e.attribute? "degrees").bind readFlag? = some true then
        .ok (.ofEuler ⟨x, y, z⟩ ⟨radians roll, radians pitch, radians yaw⟩)
      else
        .ok (.ofEuler ⟨x, y, z⟩ ⟨roll, pitch, yaw⟩)
    | _ => .error s!"expected 6 values, got {values.length}"
  | "quat_xyzw" =>
    match values with
    | [x, y, z, i, j, k, w] =>
      -- the flag for degrees has no say here
      let q : Rotation Float := ⟨w, i, j, k⟩
      if q.norm ≤ epsilon then .error "quaternion has zero length"
      else .ok ⟨⟨x, y, z⟩, q.normalized⟩
    | _ => .error s!"expected 7 values, got {values.length}"
  | other => .error s!"unknown rotation_format '{other}'"

/-- Read where an object is.  A pose without text is the identity, and so is
one that cannot be read. -/
def readPlacement (e : Element) : Reported Placement :=
  match e.child? "pose" with
  | none => pure {}
  | some p =>
    let relativeTo := (p.attribute? "relative_to").getD ""
    let text := p.text.getD ""
    if (Text.trim text).isEmpty then
      pure { relativeTo }
    else
      match poseOfText p text with
      | .ok pose => pure { pose, relativeTo }
      | .error message => do
        Reported.fail (.invalidElement "pose" e.describe message)
        pure { relativeTo }

/-! ### Children of unknown tags -/

/-- Whether a child of an unknown tag is to be reported. -/
def isForeign (c : Element) : Bool := c.tag.toList.contains ':'

/-- Report the children whose tag is none of `known`. -/
def checkChildren (e : Element) (known : List String) : Reported Unit :=
  -- one report for each child, in document order
  ⟨(), (e.children.filter fun c => !(isForeign c || known.contains c.tag)).map fun c =>
    .unrecognized s!"unrecognized element <{c.tag}> in {e.describe}"⟩

/-- Report the children whose tag is none of `known`, and give them all, the
foreign ones included. -/
def unknownChildren (e : Element) (known : List String) : Reported (List Element) := do
  e.checkChildren known
  pure (e.children.filter fun c => !known.contains c.tag)

/-! ### Objects side by side -/

/-- Keep the objects that could be read and whose names are free, behind those
kept already. -/
def keepUnique [Named α] (kept : List α) : List (Reported (Option α)) → Reported (List α)
  | [] => pure kept
  | r :: rs => do
    match ← r with
    | none => keepUnique kept rs
    | some x =>
      -- the object was read in full, with its own reports, before it is dropped
      if nameExists kept (Named.name x) then
        Reported.fail (.duplicateName (Named.kind α) (Named.name x))
        keepUnique kept rs
      else
        keepUnique (kept ++ [x]) rs

/-- Read the children of a kind, and drop those whose name an earlier one
has. -/
def readAll [Named α] (e : Element) (read : Element → Reported (Option α)) :
    Reported (List α) :=
  keepUnique [] ((e.childrenNamed (Named.kind α)).map read)

end Scene.Element

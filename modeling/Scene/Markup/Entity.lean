/-
Escaped characters in texts and attribute values.

Writing replaces the five characters that mean something in markup by
references to them.  Reading replaces any reference, by name or by number, by
the character it stands for; whatever follows an ampersand must be a reference.

An error of a reference says where it stands, counting bytes from the start of
the text that was read.  An ampersand opens a reference that the next
semicolon closes, unless another ampersand comes first.
-/
import Scene.Number.Integer
import Scene.Text.Blank

namespace Scene.Markup

/-! ### Writing -/

/-- The characters that stand for a character in a text or a value. -/
def escapeChar (c : Char) : List Char :=
  if c = '<' then "&lt;".toList
  else if c = '>' then "&gt;".toList
  else if c = '&' then "&amp;".toList
  else if c = '\'' then "&apos;".toList
  else if c = '"' then "&quot;".toList
  else [c]

/-- A text, fit to stand between tags or between quotes. -/
def escape (cs : List Char) : List Char := cs.flatMap escapeChar

/-! ### Reading -/

/-- What is wrong with a reference by number. -/
inductive CharacterError where
  | sign
  | number (e : Number.IntegerError)
  | zero
  | notACharacter (code : Nat)
deriving DecidableEq, Repr

/-- What is wrong, in words. -/
def CharacterError.message : CharacterError → String
  | .sign => "unexpected number sign"
  | .number e => e.message
  | .zero => "0x0 character is not permitted in XML"
  | .notACharacter code => s!"`{code}` is not a valid codepoint"

/-- What is wrong with a reference. -/
inductive ReferenceError where
  /-- Nothing closes it before the end or the next one. -/
  | unclosed (start stop : Nat)
  /-- Its name is not known. -/
  | unknown (start stop : Nat) (name : String)
  /-- Its number is none of a character. -/
  | character (e : CharacterError)
deriving DecidableEq, Repr

/-- What is wrong, in words. -/
def ReferenceError.message : ReferenceError → String
  | .unclosed start stop =>
    s!"Error while escaping character at range {start}..{stop}: Cannot find ';' after '&'"
  | .unknown start stop name => s!"at {start}..{stop}: unrecognized entity `{name}`"
  | .character e => "invalid character reference: " ++ e.message

/-- The character with a number. -/
def characterOfCode (code : Nat) : Except CharacterError Char :=
  if code = 0 then .error .zero
  else if code.isValidChar then .ok (Char.ofNat code)
  else .error (.notACharacter code)

/-- Read the number of a character, in decimal digits or in hexadecimal ones
behind an `x`. -/
def characterOfDigits (cs : List Char) : Except CharacterError Char :=
  let (radix, digits) : Nat × List Char := match cs with
    | 'x' :: ds => (16, ds)
    | ds => (10, ds)
  if digits.head? = some '+' ∨ digits.head? = some '-' then
    .error .sign
  else
    match Number.readUnsigned radix 0xFFFFFFFF digits with
    | .error e => .error (.number e)
    | .ok code => characterOfCode code

/-- The characters that can be referred to by name. -/
def namedCharacter? (name : List Char) : Option Char :=
  match String.ofList name with
  | "lt" => some '<'
  | "gt" => some '>'
  | "amp" => some '&'
  | "apos" => some '\''
  | "quot" => some '"'
  | _ => none

/-- The character that a reference stands for; `start` is where its name
begins. -/
def characterOfReference (start : Nat) (name : List Char) : Except ReferenceError Char :=
  match name with
  | '#' :: digits =>
    match characterOfDigits digits with
    | .ok c => .ok c
    | .error e => .error (.character e)
  | name =>
    match namedCharacter? name with
    | some c => .ok c
    | none => .error (.unknown start (start + Text.byteLength name) (String.ofList name))

/-- Whether a character belongs to the name of a reference. -/
def isReferenceChar (c : Char) : Bool := c != '&' && c != ';'

/-- Replace the references of a text that begins at `start` and whose last
character is followed by position `stop`. -/
def unescapeFrom (start stop : Nat) : List Char → Except ReferenceError (List Char)
  | [] => .ok []
  | c :: cs =>
    if c = '&' then
      let name := cs.takeWhile isReferenceChar
      match _h : cs.dropWhile isReferenceChar with
      | ';' :: rest =>
        match characterOfReference (start + 1) name with
        | .error e => .error e
        | .ok d =>
          (unescapeFrom (start + 1 + Text.byteLength name + 1) stop rest).map (d :: ·)
      | _ => .error (.unclosed start stop)
    else
      (unescapeFrom (start + c.utf8Size) stop cs).map (c :: ·)
termination_by cs => cs.length
decreasing_by
  · have := (List.dropWhile_suffix isReferenceChar (l := cs)).length_le
    simp only [_h, List.length_cons] at this ⊢
    omega
  · simp

/-- Replace the references of a text. -/
def unescape (cs : List Char) : Except ReferenceError (List Char) :=
  unescapeFrom 0 (Text.byteLength cs) cs

end Scene.Markup

/-
Attributes of a tag.

What stands between the angle brackets of a start tag is a name, up to the
first blank, and then attributes: a key, an equals sign and a value in quotes
of either kind, with blanks allowed before the key and around the sign but not
required between two attributes.  A key may hold any character but a blank and,
after its first one, an equals sign.

Positions in the errors count bytes from the start of the name.
-/
import Scene.Markup.Entity

namespace Scene.Markup

/-- The four characters that count as blanks between parts of markup. -/
def isSpace (c : Char) : Bool := c == ' ' || c == '\t' || c == '\r' || c == '\n'

/-- What is wrong with the form of an attribute. -/
inductive AttributeFlaw where
  | noEquals
  | noValue
  | unquoted
  | unclosed (quote : Char)
  | duplicated (first : Nat)
deriving DecidableEq, Repr

/-- What is wrong, in words. -/
def AttributeFlaw.message : AttributeFlaw → String
  | .noEquals => "attribute key must be directly followed by `=` or space"
  | .noValue => "`=` must be followed by an attribute value"
  | .unquoted => "attribute value must be enclosed in `\"` or `'`"
  | .unclosed quote => s!"missing closing quote `{quote}` in attribute value"
  | .duplicated first => s!"duplicated attribute, previous declaration at position {first}"

/-- What is wrong with an attribute: its form at a position, or a reference in
the value of a key. -/
inductive AttributeError where
  | form (position : Nat) (flaw : AttributeFlaw)
  | value (key : String) (e : ReferenceError)
deriving DecidableEq, Repr

/-- What is wrong with an attribute of a tag, in words. -/
def AttributeError.message (tag : String) : AttributeError → String
  | .form position flaw =>
    s!"malformed attribute on <{tag}>: position {position}: {flaw.message}"
  | .value key e => s!"invalid value for attribute {key}: {e.message}"

/-- An attribute as it was found, and the position of its key. -/
structure FoundAttribute where
  position : Nat
  key : List Char
  value : List Char

/-- Read the value of an attribute from its opening quote: the characters in
the quotes, and those behind them.  On failure the position is that of the
first character that was not expected. -/
def quotedValue (position : Nat) :
    List Char → Except AttributeError (List Char × List Char)
  | [] => .error (.form position .noValue)
  | q :: cs =>
    if q = '"' ∨ q = '\'' then
      match cs.dropWhile (· != q) with
      | [] => .error (.form (position + 1 + Text.byteLength cs) (.unclosed q))
      | _ :: rest => .ok (cs.takeWhile (· != q), rest)
    else
      .error (.form position .unquoted)

/-- Read the attribute that begins at a key, given those before it: the
attribute, and what is left behind its closing quote. -/
def readAttribute (found : List FoundAttribute) (position : Nat) (c : Char) (cs : List Char) :
    Except AttributeError (FoundAttribute × List Char) :=
  -- the first character belongs to the key even if it is an equals sign
  let inKey := fun d => d != '=' && !isSpace d
  let key := c :: cs.takeWhile inKey
  let behindKey := cs.dropWhile inKey
  let blanks := behindKey.takeWhile isSpace
  let equalsAt := position + Text.byteLength key + Text.byteLength blanks
  match behindKey.dropWhile isSpace with
  | '=' :: behindEquals =>
    match found.find? fun a => a.key == key with
    | some earlier => .error (.form position (.duplicated earlier.position))
    | none =>
      let valueAt := equalsAt + 1 + Text.byteLength (behindEquals.takeWhile isSpace)
      match quotedValue valueAt (behindEquals.dropWhile isSpace) with
      | .error e => .error e
      | .ok (raw, rest) =>
        match unescape raw with
        | .error e => .error (.value (String.ofList key) e)
        | .ok value => .ok (⟨position, key, value⟩, rest)
  | _ => .error (.form equalsAt .noEquals)

/-! ### What is left becomes shorter -/

theorem length_dropWhile_le (p : Char → Bool) (cs : List Char) :
    (cs.dropWhile p).length ≤ cs.length :=
  (List.dropWhile_suffix p).length_le

theorem quotedValue_length {position : Nat} {cs raw rest : List Char}
    (h : quotedValue position cs = .ok (raw, rest)) : rest.length < cs.length := by
  cases cs with
  | nil => simp [quotedValue] at h
  | cons q cs =>
    simp only [quotedValue] at h
    split at h
    · have hle := length_dropWhile_le (· != q) cs
      split at h
      · simp at h
      · next heq =>
        simp only [Except.ok.injEq, Prod.mk.injEq] at h
        obtain ⟨-, rfl⟩ := h
        rw [heq] at hle
        simp only [List.length_cons] at hle ⊢
        omega
    · simp at h

theorem readAttribute_length {found : List FoundAttribute} {position : Nat} {c : Char}
    {cs rest : List Char} {a : FoundAttribute}
    (h : readAttribute found position c cs = .ok (a, rest)) : rest.length < cs.length := by
  simp only [readAttribute] at h
  split at h
  · next behindEquals heq =>
    have h1 := length_dropWhile_le (fun d => d != '=' && !isSpace d) cs
    have h2 := length_dropWhile_le isSpace (cs.dropWhile fun d => d != '=' && !isSpace d)
    rw [heq] at h2
    simp only [List.length_cons] at h2
    have h3 := length_dropWhile_le isSpace behindEquals
    split at h
    · simp at h
    · split at h
      · simp at h
      · next hq =>
        have h4 := quotedValue_length hq
        split at h
        · simp at h
        · simp only [Except.ok.injEq, Prod.mk.injEq] at h
          obtain ⟨-, rfl⟩ := h
          omega
  · simp at h

/-! ### All attributes -/

/-- Read attributes behind those already found.  Every value has its
references replaced before the next key is looked at. -/
def readAttributes (found : List FoundAttribute) (position : Nat) (cs : List Char) :
    Except AttributeError (List FoundAttribute) :=
  match _h : cs.dropWhile isSpace with
  | [] => .ok found
  | c :: rest =>
    let start := position + Text.byteLength (cs.takeWhile isSpace)
    match _ha : readAttribute found start c rest with
    | .error e => .error e
    | .ok (a, behind) =>
      readAttributes (found ++ [a])
        (start + c.utf8Size + (Text.byteLength rest - Text.byteLength behind)) behind
termination_by cs.length
decreasing_by
  have h1 := length_dropWhile_le isSpace cs
  have h2 := readAttribute_length _ha
  rw [_h] at h1
  simp only [List.length_cons] at h1
  omega

/-- The name of a tag: everything up to the first blank. -/
def tagName (content : List Char) : List Char := content.takeWhile fun c => !isSpace c

/-- The attributes behind the name of a tag. -/
def tagAttributes (content : List Char) : Except AttributeError (List (String × String)) :=
  (readAttributes [] (Text.byteLength (tagName content))
    (content.dropWhile fun c => !isSpace c)).map
      fun found => found.map fun a => (String.ofList a.key, String.ofList a.value)

end Scene.Markup

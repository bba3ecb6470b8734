/-
Blank characters, trimming and words.

Two notions of a blank occur in a scene description.  Values are separated by
the characters that Unicode calls `White_Space`, and those are the ones of
this module.  Markup has a smaller set of its own (see `Scene.Markup.Token`),
because a tokenizer works on bytes and skips only four of them.

A text is trimmed at both ends and cut into its words; both work on lists of
characters, and the versions on strings only carry them over.
-/

namespace Scene.Text

/-! ### Blanks -/

/-- The characters with the Unicode property `White_Space`. -/
def isBlank (c : Char) : Bool :=
  let n := c.toNat
  (0x9 ≤ n && n ≤ 0xD) || n == 0x20 || n == 0x85 || n == 0xA0 || n == 0x1680
    || (0x2000 ≤ n && n ≤ 0x200A) || n == 0x2028 || n == 0x2029 || n == 0x202F
    || n == 0x205F || n == 0x3000

/-! ### Trimming -/

/-- Drop the last characters as long as they satisfy `p`. -/
def dropEndWhile (p : Char → Bool) (cs : List Char) : List Char :=
  (cs.reverse.dropWhile p).reverse

/-- Drop the blanks at both ends. -/
def trimChars (cs : List Char) : List Char :=
  dropEndWhile isBlank (cs.dropWhile isBlank)

/-- Drop the blanks at both ends of a string. -/
def trim (s : String) : String := String.ofList (trimChars s.toList)

/-! ### Words -/

/-- The maximal runs of characters that are not blank. -/
def wordsOfChars (cs : List Char) : List (List Char) :=
  (cs.splitOnP isBlank).filter fun w => !w.isEmpty

/-- The maximal runs of characters of a string that are not blank. -/
def words (s : String) : List String := (wordsOfChars s.toList).map String.ofList

/-! ### Sizes -/

/-- Number of bytes of a text in UTF-8, the unit in which positions in markup
are counted. -/
def byteLength : List Char → Nat
  | [] => 0
  | c :: cs => c.utf8Size + byteLength cs

end Scene.Text

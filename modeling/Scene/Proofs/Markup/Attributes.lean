/-
Attributes that were written are read back.

A name is written as it is, so it must not hold a character that ends a name or
means something in a tag; any name of a well-formed document is of this kind.
Values are written escaped and may be anything.
-/
import Scene.Markup.Rendering
import Scene.Proofs.Markup.Entity

namespace Scene.Markup

/-! ### Names -/

/-- A character that can stand anywhere in a name. -/
def isNameChar (c : Char) : Bool :=
  !(isSpace c || isMark c || c == '/' || c == '=' || c == '!' || c == '?')

/-- The name of an element or of an attribute. -/
def IsName (s : String) : Prop := s ≠ "" ∧ ∀ c ∈ s.toList, isNameChar c = true

instance (s : String) : Decidable (IsName s) :=
  decidable_of_iff (s ≠ "" ∧ s.toList.all isNameChar = true) (by simp [IsName])

/-- Characters of names are no space and none that structures a tag. -/
theorem isNameChar_iff {c : Char} : isNameChar c = true ↔
    isSpace c = false ∧ isMark c = false ∧ c ≠ '/' ∧ c ≠ '=' ∧ c ≠ '!' ∧ c ≠ '?' := by
  simp [isNameChar, and_assoc]

theorem exists_of_isName {s : String} (h : IsName s) :
    ∃ c cs, s.toList = c :: cs ∧ isNameChar c = true ∧ ∀ d ∈ cs, isNameChar d = true := by
  obtain ⟨hne, hchars⟩ := h
  cases hs : s.toList with
  | nil => exact absurd (String.toList_eq_nil_iff.mp hs) hne
  | cons c cs =>
    rw [hs] at hchars
    obtain ⟨hc, hcs⟩ := List.forall_mem_cons.mp hchars
    exact ⟨c, cs, rfl, hc, hcs⟩

/-- A row that is cut at the first character that is not one of those before. -/
theorem span_append {p : Char → Bool} {cs : List Char} {d : Char}
    (hcs : ∀ c ∈ cs, p c = true) (hd : p d = false) (rest : List Char) :
    (cs ++ d :: rest).takeWhile p = cs ∧ (cs ++ d :: rest).dropWhile p = d :: rest := by
  constructor
  · rw [List.takeWhile_append_of_pos hcs, List.takeWhile_cons_of_neg (by simp [hd]),
      List.append_nil]
  · rw [List.dropWhile_append_of_pos hcs, List.dropWhile_cons_of_neg (by simp [hd])]

/-! ### One attribute -/

/-- An escaped value has no quote in it, so it ends at the one behind it. -/
theorem quotedValue_written (position : Nat) (value rest : List Char) :
    quotedValue position ('"' :: (escape value ++ '"' :: rest)) = .ok (escape value, rest) := by
  have hquote : ∀ d ∈ escape value, (d != '"') = true := by
    intro d hd
    have := isMark_of_mem_escape hd
    simp only [isMark, Bool.or_eq_false_iff] at this
    simpa using this.2
  obtain ⟨htake, hdrop⟩ := span_append hquote (d := '"') (by decide) rest
  simp only [quotedValue, if_true, true_or, htake, hdrop]

/-- An attribute of a new name is read with the value that it was written
with. -/
theorem readAttribute_written {found : List FoundAttribute} {c : Char} {cs : List Char}
    (hcs : ∀ d ∈ cs, isNameChar d = true) (hnew : ∀ a ∈ found, a.key ≠ c :: cs)
    (position : Nat) (value rest : List Char) :
    readAttribute found position c (cs ++ '=' :: '"' :: (escape value ++ '"' :: rest)) =
      .ok (⟨position, c :: cs, value⟩, rest) := by
  -- the key ends at the equals sign, and no blanks stand around that
  have hkey : ∀ d ∈ cs, (d != '=' && !isSpace d) = true := by
    intro d hd
    obtain ⟨hspace, -, -, heq, -⟩ := isNameChar_iff.mp (hcs d hd)
    simp [hspace, heq]
  obtain ⟨htake, hdrop⟩ := span_append hkey (d := '=') (by decide)
    ('"' :: (escape value ++ '"' :: rest))
  have hfind : found.find? (fun a => a.key == c :: cs) = none := by
    rw [List.find?_eq_none]
    simpa using hnew
  have hequals : ('=' :: '"' :: (escape value ++ '"' :: rest)).dropWhile isSpace =
      '=' :: '"' :: (escape value ++ '"' :: rest) :=
    List.dropWhile_cons_of_neg (by decide)
  have hvalue : ('"' :: (escape value ++ '"' :: rest)).dropWhile isSpace =
      '"' :: (escape value ++ '"' :: rest) :=
    List.dropWhile_cons_of_neg (by decide)
  simp only [readAttribute, htake, hdrop, hequals, hvalue, hfind, quotedValue_written,
    unescape_escape]

/-! ### All attributes -/

open Element (attributeChars)

theorem attributeChars_cons (name value : String) (attributes : List (String × String)) :
    attributeChars ((name, value) :: attributes) =
      ' ' :: (name.toList ++ '=' :: '"' :: (escape value.toList
        ++ '"' :: attributeChars attributes)) := by
  simp [attributeChars]

/-- An attribute as it is found, without its position. -/
def FoundAttribute.entry (a : FoundAttribute) : String × String :=
  (String.ofList a.key, String.ofList a.value)

/-- Of attributes in a row, the first is read before the others. -/
theorem readAttributes_cons {found : List FoundAttribute} {name : String} (hname : IsName name)
    (hnew : ∀ a ∈ found, a.entry.1 ≠ name) (value : String) (attributes : List (String × String))
    (position : Nat) :
    ∃ a behind, a.entry = (name, value) ∧
      readAttributes found position (attributeChars ((name, value) :: attributes)) =
        readAttributes (found ++ [a]) behind (attributeChars attributes) := by
  obtain ⟨c, cs, hchars, hc, hcs⟩ := exists_of_isName hname
  obtain ⟨hspace, -⟩ := isNameChar_iff.mp hc
  have hkey : ∀ b ∈ found, b.key ≠ c :: cs := by
    intro b hb hkey
    apply hnew b hb
    rw [FoundAttribute.entry, hkey, ← hchars, String.ofList_toList]
  -- the blank in front is skipped
  have hdrop : (attributeChars ((name, value) :: attributes)).dropWhile isSpace =
      c :: (cs ++ '=' :: '"' :: (escape value.toList ++ '"' :: attributeChars attributes)) := by
    rw [attributeChars_cons, List.dropWhile_cons_of_pos (by decide), hchars, List.cons_append,
      List.dropWhile_cons_of_neg (by simp [hspace])]
  rw [readAttributes]
  split
  · next heq =>
    rw [hdrop] at heq
    cases heq
  · next d rest heq =>
    rw [hdrop] at heq
    obtain ⟨rfl, rfl⟩ := List.cons.inj heq
    dsimp only
    -- positions only matter for errors
    generalize position + Text.byteLength
      ((attributeChars ((name, value) :: attributes)).takeWhile isSpace) = start
    split
    · next e he =>
      rw [readAttribute_written hcs hkey] at he
      cases he
    · next b behind hb =>
      rw [readAttribute_written hcs hkey] at hb
      obtain ⟨rfl, rfl⟩ := Prod.mk.inj (Except.ok.inj hb)
      refine ⟨⟨start, c :: cs, value.toList⟩, _, ?_, rfl⟩
      rw [FoundAttribute.entry, ← hchars, String.ofList_toList, String.ofList_toList]

/-- Attributes that are written are read again, if their names differ from those
found before. -/
theorem readAttributes_written (found : List FoundAttribute) {attributes : List (String × String)}
    (hnames : ∀ a ∈ attributes, IsName a.1)
    (hnodup : ((found.map FoundAttribute.entry ++ attributes).map Prod.fst).Nodup)
    (position : Nat) :
    ∃ more, readAttributes found position (attributeChars attributes) = .ok (found ++ more) ∧
      more.map FoundAttribute.entry = attributes := by
  -- for any attributes found so far, since a key must differ from all of them
  induction attributes generalizing found position with
  | nil =>
    refine ⟨[], ?_, rfl⟩
    rw [List.append_nil, readAttributes]
    rfl
  | cons a attributes ih =>
    obtain ⟨name, value⟩ := a
    obtain ⟨hname, hnames⟩ := List.forall_mem_cons.mp hnames
    have hnew : ∀ b ∈ found, b.entry.1 ≠ name := by
      intro b hb
      rw [List.map_append, List.nodup_append] at hnodup
      exact hnodup.2.2 b.entry.1 (List.mem_map_of_mem (List.mem_map_of_mem hb)) name (by simp)
    obtain ⟨b, behind, hentry, hread⟩ :=
      readAttributes_cons hname hnew value attributes position
    obtain ⟨more, hmore, hentries⟩ :=
      ih (found ++ [b]) hnames (by simpa [hentry] using hnodup) behind
    refine ⟨b :: more, ?_, ?_⟩
    · rw [hread, hmore, List.append_assoc, List.singleton_append]
    · rw [List.map_cons, hentry, hentries]

/-! ### Tags -/

/-- A name that is written ends where the attributes begin. -/
theorem tagName_written {name : String} (h : IsName name) (attributes : List (String × String)) :
    tagName (name.toList ++ attributeChars attributes) = name.toList ∧
    (name.toList ++ attributeChars attributes).dropWhile (fun c => !isSpace c) =
      attributeChars attributes := by
  -- the name goes up to the blank in front of the first attribute
  have hname : ∀ c ∈ name.toList, (!isSpace c) = true := by
    intro c hc
    obtain ⟨hspace, -⟩ := isNameChar_iff.mp (h.2 c hc)
    simp [hspace]
  cases attributes with
  | nil =>
    have hnil : attributeChars [] = [] := rfl
    rw [hnil, List.append_nil]
    exact ⟨List.takeWhile_eq_self_iff.mpr hname, List.dropWhile_eq_nil_iff.mpr hname⟩
  | cons a attributes =>
    rw [attributeChars_cons]
    exact span_append hname (by decide) _

/-- **The attributes of a tag are read as they were written.** -/
theorem tagAttributes_written {name : String} (h : IsName name)
    {attributes : List (String × String)} (hnames : ∀ a ∈ attributes, IsName a.1)
    (hnodup : (attributes.map Prod.fst).Nodup) :
    tagAttributes (name.toList ++ attributeChars attributes) = .ok attributes := by
  obtain ⟨more, hmore, hentries⟩ := readAttributes_written [] hnames hnodup
    (Text.byteLength (tagName (name.toList ++ attributeChars attributes)))
  rw [tagAttributes, (tagName_written h attributes).2, hmore, ← hentries]
  rfl

end Scene.Markup

/-
Escaping can be undone.

Each character is escaped by itself, to itself or to a reference by name, and
reading replaces the reference by the character again.  Of the characters that
mean something in markup none is left but the ampersand, and the ends of a text
are blank only if they were before.
-/
import Scene.Markup.Attributes
import Scene.Proofs.Text.Blank

namespace Scene.Markup

/-! ### Reading what was escaped -/

/-- A character that begins no reference stands for itself. -/
theorem unescapeFrom_char {c : Char} (h : c ≠ '&') (start stop : Nat) (cs : List Char) :
    unescapeFrom start stop (c :: cs) =
      (unescapeFrom (start + c.utf8Size) stop cs).map (c :: ·) := by
  rw [unescapeFrom, if_neg h]

/-- A reference that is known stands for its character. -/
theorem unescapeFrom_reference {name rest : List Char} {c : Char}
    (hname : ∀ d ∈ name, isReferenceChar d = true)
    (hc : ∀ start, characterOfReference start name = .ok c) (start stop : Nat) :
    unescapeFrom start stop ('&' :: (name ++ ';' :: rest)) =
      (unescapeFrom (start + 1 + Text.byteLength name + 1) stop rest).map (c :: ·) := by
  -- the name goes up to the semicolon
  have htake : (name ++ ';' :: rest).takeWhile isReferenceChar = name := by
    rw [List.takeWhile_append_of_pos hname, List.takeWhile_cons_of_neg (by decide),
      List.append_nil]
  have hdrop : (name ++ ';' :: rest).dropWhile isReferenceChar = ';' :: rest := by
    rw [List.dropWhile_append_of_pos hname, List.dropWhile_cons_of_neg (by decide)]
  rw [unescapeFrom, if_pos rfl, htake]
  split
  · next rest' heq =>
    obtain rfl : rest' = rest := by
      rw [hdrop] at heq
      exact (List.cons.inj heq).2.symm
    simp only [hc]
  · next hne => exact absurd hdrop (hne rest)

/-- A character is escaped to itself or to a reference by name. -/
theorem escapeChar_cases (c : Char) :
    (escapeChar c = [c] ∧ c ≠ '<' ∧ c ≠ '>' ∧ c ≠ '&' ∧ c ≠ '\'' ∧ c ≠ '"') ∨
    ∃ name, escapeChar c = '&' :: (name ++ [';']) ∧
      (∀ d ∈ name, isReferenceChar d = true ∧ d ≠ '<' ∧ d ≠ '>' ∧ d ≠ '\'' ∧ d ≠ '"') ∧
      ∀ start, characterOfReference start name = .ok c := by
  have hname {name : List Char} (h : name.all (fun d => isReferenceChar d && d != '<' && d != '>'
      && d != '\'' && d != '"') = true) :
      ∀ d ∈ name, isReferenceChar d = true ∧ d ≠ '<' ∧ d ≠ '>' ∧ d ≠ '\'' ∧ d ≠ '"' := by
    simpa [and_assoc] using h
  -- the five characters with a reference by name, and all others
  by_cases h1 : c = '<'
  · exact .inr ⟨['l', 't'], by subst h1; rfl, hname (by decide), by subst h1; exact fun _ => rfl⟩
  by_cases h2 : c = '>'
  · exact .inr ⟨['g', 't'], by subst h2; rfl, hname (by decide), by subst h2; exact fun _ => rfl⟩
  by_cases h3 : c = '&'
  · exact .inr ⟨['a', 'm', 'p'], by subst h3; rfl, hname (by decide),
      by subst h3; exact fun _ => rfl⟩
  by_cases h4 : c = '\''
  · exact .inr ⟨['a', 'p', 'o', 's'], by subst h4; rfl, hname (by decide),
      by subst h4; exact fun _ => rfl⟩
  by_cases h5 : c = '"'
  · exact .inr ⟨['q', 'u', 'o', 't'], by subst h5; rfl, hname (by decide),
      by subst h5; exact fun _ => rfl⟩
  · refine .inl ⟨?_, h1, h2, h3, h4, h5⟩
    rw [escapeChar, if_neg h1, if_neg h2, if_neg h3, if_neg h4, if_neg h5]

theorem escape_cons (c : Char) (cs : List Char) :
    escape (c :: cs) = escapeChar c ++ escape cs := rfl

/-- Unescaping undoes escaping, from every position. -/
theorem unescapeFrom_escape (cs : List Char) (start stop : Nat) :
    unescapeFrom start stop (escape cs) = .ok cs := by
  induction cs generalizing start with
  | nil => simp [escape, unescapeFrom]
  | cons c cs ih =>
    rw [escape_cons]
    -- what stays as it is is no ampersand, so it begins no reference
    obtain ⟨heq, -, -, hamp, -⟩ | ⟨name, heq, hname, hc⟩ := escapeChar_cases c
    · rw [heq, List.singleton_append, unescapeFrom_char hamp, ih]
      rfl
    · rw [heq, List.cons_append, List.append_assoc, List.singleton_append,
        unescapeFrom_reference (fun d hd => (hname d hd).1) hc, ih]
      rfl

/-- **What is escaped is read back.** -/
theorem unescape_escape (cs : List Char) : unescape (escape cs) = .ok cs :=
  unescapeFrom_escape cs 0 _

/-! ### What is left in an escaped text -/

/-- A character that means something in markup, even in a text. -/
def isMark (c : Char) : Bool := c == '<' || c == '>' || c == '\'' || c == '"'

/-- An escaped text has no marks in it. -/
theorem isMark_of_mem_escape {cs : List Char} {d : Char} (h : d ∈ escape cs) :
    isMark d = false := by
  obtain ⟨c, -, hd⟩ := List.mem_flatMap.mp h
  obtain ⟨heq, h1, h2, -, h4, h5⟩ | ⟨name, heq, hname, -⟩ := escapeChar_cases c
  · rw [heq, List.mem_singleton] at hd
    subst hd
    simp [isMark, h1, h2, h4, h5]
  · rw [heq, List.mem_cons, List.mem_append, List.mem_singleton] at hd
    -- ampersand, name or semicolon
    rcases hd with rfl | hd | rfl
    · rfl
    · obtain ⟨-, h1, h2, h4, h5⟩ := hname d hd
      simp [isMark, h1, h2, h4, h5]
    · rfl

theorem escapeChar_ne_nil (c : Char) : escapeChar c ≠ [] := by
  obtain ⟨heq, -⟩ | ⟨name, heq, -⟩ := escapeChar_cases c
  · simp [heq]
  · simp [heq]

/-- Escaping does not lose a text. -/
theorem escape_ne_nil {cs : List Char} (h : cs ≠ []) : escape cs ≠ [] := by
  cases cs with
  | nil => exact absurd rfl h
  | cons c cs =>
    rw [escape_cons]
    exact List.append_ne_nil_of_left_ne_nil (escapeChar_ne_nil c) _

/-- A blank of markup is a blank. -/
theorem isBlank_of_isSpace {c : Char} (h : isSpace c = true) : Text.isBlank c = true := by
  simp only [isSpace, Bool.or_eq_true, beq_iff_eq] at h
  rcases h with ((rfl | rfl) | rfl) | rfl
  · rfl
  · rfl
  · rfl
  · rfl

/-- An escaped character begins with no space, if it is none. -/
theorem isSpace_of_head_escapeChar {c d : Char} (hc : isSpace c = false)
    (h : (escapeChar c).head? = some d) : isSpace d = false := by
  obtain ⟨heq, -⟩ | ⟨name, heq, -⟩ := escapeChar_cases c
  · rw [heq] at h
    exact Option.some.inj h ▸ hc
  · rw [heq] at h
    exact Option.some.inj h ▸ rfl

/-- Nor does it end with one. -/
theorem isSpace_of_last_escapeChar {c d : Char} (hc : isSpace c = false)
    (h : (escapeChar c).getLast? = some d) : isSpace d = false := by
  obtain ⟨heq, -⟩ | ⟨name, heq, -⟩ := escapeChar_cases c
  · rw [heq] at h
    exact Option.some.inj h ▸ hc
  · rw [heq, ← List.cons_append, List.getLast?_concat] at h
    exact Option.some.inj h ▸ rfl

/-- Escaping puts no blank at the ends of a text. -/
theorem bareOf_escape {cs : List Char} (h : Text.BareOf isSpace cs) :
    Text.BareOf isSpace (escape cs) := by
  obtain ⟨hhead, hlast⟩ := h
  constructor
  · intro d hd
    cases cs with
    | nil => cases hd
    | cons c cs =>
      rw [escape_cons, List.head?_append_of_ne_nil _ (escapeChar_ne_nil c)] at hd
      exact isSpace_of_head_escapeChar (hhead c rfl) hd
  -- the last character of the row comes of the last one that was escaped
  · intro d hd
    rcases List.eq_nil_or_concat cs with rfl | ⟨ds, c, rfl⟩
    · cases hd
    · have hc := hlast c (by rw [List.concat_eq_append, List.getLast?_concat])
      rw [List.concat_eq_append, escape, List.flatMap_append, List.flatMap_singleton,
        List.getLast?_append_of_ne_nil _ (escapeChar_ne_nil c)] at hd
      exact isSpace_of_last_escapeChar hc hd

/-- The ends of a tidy text are no blanks of markup. -/
theorem bareOf_isSpace_of_isTidy {s : String} (h : Text.IsTidy s) :
    Text.BareOf isSpace s.toList := by
  obtain ⟨-, hhead, hlast⟩ := Text.isTidy_iff.mp h
  have key {c : Char} (hc : Text.isBlank c = false) : isSpace c = false := by
    cases hs : isSpace c with
    | false => rfl
    | true => rw [isBlank_of_isSpace hs] at hc; cases hc
  exact ⟨fun c hc => key (hhead c hc), fun c hc => key (hlast c hc)⟩

end Scene.Markup

/-
Rows of numbers that are read.

Either all words of a text spell numbers, or there is a first one that does not.
In the second case reading ends with that word, whatever the length of the row.
In the first case the numbers are put into the row from the left and counted,
and counting goes on when the row is full.  So at any moment the row holds the
first of the numbers, as many as it has places for, and zeros behind them, and
the count is that of the words: in the end the row is right exactly if the count
is.

Main statement: `readTuple_outcome`.
-/
import Mathlib.Data.List.Induction
import Scene.Value.Tuple

namespace Scene

/-! ### Words that spell numbers -/

namespace Number

/-- The words of a row spell numbers, or there is a first one that does not. -/
theorem spell_or_first_bad (ws : List String) :
    (∃ xs : List Float, ws.map float? = xs.map some) ∨
      ∃ before word after, ∃ xs : List Float, ws = before ++ word :: after ∧
        before.map float? = xs.map some ∧ float? word = none := by
  -- the first bad word, if there is one, is the first word or stands behind a good one
  induction ws with
  | nil => exact .inl ⟨[], rfl⟩
  | cons w ws ih =>
    cases hw : float? w with
    | none => exact .inr ⟨[], w, ws, [], rfl, rfl, hw⟩
    | some x =>
      obtain ⟨xs, hxs⟩ | ⟨before, word, after, xs, rfl, hxs, hbad⟩ := ih
      · exact .inl ⟨x :: xs, by rw [List.map_cons, hw, hxs, List.map_cons]⟩
      · exact .inr ⟨w :: before, word, after, x :: xs, rfl,
          by rw [List.map_cons, hw, hxs, List.map_cons], hbad⟩

theorem forall_isSome_of_spell {ws : List String} {xs : List Float}
    (h : ws.map float? = xs.map some) : ∀ w ∈ ws, (float? w).isSome = true := by
  intro w hw
  have hmem : float? w ∈ xs.map some := h ▸ List.mem_map_of_mem hw
  obtain ⟨x, -, hx⟩ := List.mem_map.mp hmem
  rw [← hx]
  rfl

/-- Words that are all numerals spell a row of numbers. -/
theorem exists_spell {ws : List String} (h : ∀ w ∈ ws, (float? w).isSome = true) :
    ∃ xs : List Float, ws.map float? = xs.map some := by
  obtain hspell | ⟨before, word, after, xs, rfl, -, hbad⟩ := spell_or_first_bad ws
  · exact hspell
  · have := h word (List.mem_append_right _ List.mem_cons_self)
    rw [hbad] at this
    cases this

theorem getElem?_of_spell {ws : List String} {xs : List Float}
    (h : ws.map float? = xs.map some) (i : Nat) : xs[i]? = ws[i]?.bind float? := by
  have hi : ws[i]?.map float? = xs[i]?.map some := by
    rw [← List.getElem?_map, h, List.getElem?_map]
  cases hw : ws[i]? with
  | none =>
    rw [hw] at hi
    exact Option.map_eq_none_iff.mp hi.symm
  | some w =>
    rw [hw] at hi
    obtain ⟨x, hx, hword⟩ := Option.map_eq_some_iff.mp hi.symm
    rw [hx]
    exact hword

/-- A row is spelled with one word for each number. -/
theorem length_eq_of_spell {ws : List String} {xs : List Float}
    (h : ws.map float? = xs.map some) : ws.length = xs.length := by
  simpa using congrArg List.length h

end Number

/-! ### A row that is filled -/

namespace Filling

variable {n : Nat}

/-- The row after some numbers. -/
def filled (xs : List Float) : Filling n := xs.foldl put blank

/-- One number more is put behind those that are there. -/
theorem filled_concat (xs : List Float) (x : Float) :
    (filled (xs ++ [x]) : Filling n) = (filled xs).put x := by
  rw [filled, List.foldl_append]
  rfl

/-- One more number changes the place whose turn it is, if there is one, and no
other. -/
theorem getElem_put (f : Filling n) (x : Float) (i : Fin n) :
    (f.put x).row[i] = if i = f.count then x else f.row[i] := by
  unfold put
  dsimp only
  split
  · next h =>
    rw [Fin.getElem_fin, Vector.getElem_set]
    simp only [eq_comm, Fin.getElem_fin]
  · next h => rw [if_neg (by omega)]

/-- The count is that of all numbers, those beyond the row included. -/
theorem count_filled (xs : List Float) : (filled xs : Filling n).count = xs.length := by
  induction xs using List.reverseRecOn with
  | nil => rfl
  | append_singleton xs x ih =>
    rw [filled_concat, List.length_append]
    exact congrArg (· + 1) ih

/-- The numbers stand at their places, as many as there are places, and zeros
behind them. -/
theorem getElem_filled (xs : List Float) (i : Fin n) :
    (filled xs : Filling n).row[i] = xs[(i : Nat)]?.getD 0 := by
  -- number by number: the last one goes to its place, and if there is none, is dropped
  induction xs using List.reverseRecOn with
  | nil => simp [filled, blank]
  | append_singleton xs x ih =>
    rw [filled_concat, getElem_put, count_filled, ih]
    split
    · next h => rw [h, List.getElem?_concat_length]; rfl
    · next h =>
      rcases Nat.lt_or_gt_of_ne h with hlt | hgt
      · rw [List.getElem?_append_left hlt]
      · have hlength : (xs ++ [x]).length ≤ i := by rw [List.length_append]; exact hgt
        rw [List.getElem?_eq_none hlength, List.getElem?_eq_none (by omega)]

/-- A row that is filled with as many numbers as it holds has these numbers. -/
theorem row_filled {xs : List Float} (h : xs.length = n) :
    (filled xs : Filling n).row = ⟨xs.toArray, h⟩ := by
  apply Vector.ext
  intro i hi
  have := getElem_filled (n := n) xs ⟨i, hi⟩
  rw [Fin.getElem_fin] at this
  rw [this, List.getElem?_eq_getElem (h ▸ hi)]
  rfl

/-- Words that spell numbers put these into the row. -/
theorem read_append {kind : String} {ws : List String} {xs : List Float}
    (h : ws.map Number.float? = xs.map some) (f : Filling n) (rest : List String) :
    f.read kind (ws ++ rest) = (xs.foldl put f).read kind rest := by
  -- the filling changes with each word, so it is any one here
  induction ws generalizing f xs with
  | nil =>
    cases xs with
    | nil => rfl
    | cons x xs => cases h
  | cons w ws ih =>
    cases xs with
    | nil => cases h
    | cons x xs =>
      rw [List.map_cons, List.map_cons, List.cons.injEq] at h
      rw [List.cons_append, read, h.1]
      exact ih h.2 (f.put x)

theorem read_blank {kind : String} {ws : List String} {xs : List Float}
    (h : ws.map Number.float? = xs.map some) :
    (blank : Filling n).read kind ws = .ok (filled xs) := by
  rw [← List.append_nil ws, read_append h]
  rfl

end Filling

/-! ### Texts that are read -/

variable {kind text : String} {n : Nat}

/-- Numbers without a bad word among them are taken if their count is right. -/
theorem readTuple_of_spell {xs : List Float}
    (h : (Text.words text).map Number.float? = xs.map some) :
    readTuple kind n text =
      if hn : xs.length = n then .ok ⟨xs.toArray, hn⟩
      else .error (.wrongArity kind n xs.length) := by
  unfold readTuple
  rw [Filling.read_blank h]
  simp only [bind, Except.bind, Filling.count_filled]
  split
  · next hn => rw [Filling.row_filled hn]
  · rfl

/-- A bad word is blamed if only numbers are before it. -/
theorem readTuple_of_bad {before after : List String} {word : String} {xs : List Float}
    (hwords : Text.words text = before ++ word :: after)
    (h : before.map Number.float? = xs.map some) (hbad : Number.float? word = none) :
    readTuple kind n text = .error (.invalidNumber word kind) := by
  unfold readTuple
  rw [hwords, Filling.read_append h, Filling.read, hbad]
  rfl

/-- A text is read as a row exactly if its words spell the row. -/
theorem readTuple_eq_ok_iff {row : Vector Float n} :
    readTuple kind n text = .ok row ↔
      (Text.words text).map Number.float? = row.toList.map some := by
  constructor
  · intro h
    obtain ⟨xs, hxs⟩ | ⟨before, word, after, xs, hwords, hxs, hbad⟩ :=
      Number.spell_or_first_bad (Text.words text)
    · rw [readTuple_of_spell hxs] at h
      split at h
      · cases h
        exact hxs
      · cases h
    · rw [readTuple_of_bad hwords hxs hbad] at h
      cases h
  · intro h
    rw [readTuple_of_spell h, dif_pos row.length_toList]
    exact congrArg Except.ok (Vector.toList_inj.mp rfl)

/-- It is refused for its first word that is no numeral, or else for its count. -/
theorem readTuple_eq_error_iff {e : ValueError} :
    readTuple kind n text = .error e ↔
      (∃ before word after, Text.words text = before ++ word :: after ∧
        (∀ w ∈ before, (Number.float? w).isSome = true) ∧ Number.float? word = none ∧
        e = .invalidNumber word kind) ∨
      ((∀ w ∈ Text.words text, (Number.float? w).isSome = true) ∧
        (Text.words text).length ≠ n ∧
        e = .wrongArity kind n (Text.words text).length) := by
  constructor
  · intro h
    obtain ⟨xs, hxs⟩ | ⟨before, word, after, xs, hwords, hxs, hbad⟩ :=
      Number.spell_or_first_bad (Text.words text)
    · rw [readTuple_of_spell hxs] at h
      split at h
      · cases h
      · next hn =>
        cases h
        rw [Number.length_eq_of_spell hxs]
        exact .inr ⟨Number.forall_isSome_of_spell hxs, hn, rfl⟩
    · rw [readTuple_of_bad hwords hxs hbad] at h
      cases h
      exact .inl ⟨before, word, after, hwords, Number.forall_isSome_of_spell hxs, hbad, rfl⟩
  · rintro (⟨before, word, after, hwords, hbefore, hbad, rfl⟩ | ⟨hall, hlength, rfl⟩)
    · obtain ⟨xs, hxs⟩ := Number.exists_spell hbefore
      exact readTuple_of_bad hwords hxs hbad
    -- no word is bad, so that leaves their count
    · obtain ⟨xs, hxs⟩ := Number.exists_spell hall
      rw [Number.length_eq_of_spell hxs] at hlength ⊢
      rw [readTuple_of_spell hxs, dif_neg hlength]

/-- **What reading a row of numbers gives.**  It gives a row exactly if the text
has as many words as the row has places and all of them spell numbers, and then
the row holds these in order.  Otherwise it fails: on the first word that is no
number, wherever it stands and however many words there are, and if there is none,
on the count of the words.  While words are read, the row holds the numbers read so
far at the places that it has for them, and one more number changes no place but
the next one, and none when the row is full. -/
theorem readTuple_outcome (kind : String) (n : Nat) (text : String) :
    (∀ row : Vector Float n, readTuple kind n text = .ok row ↔
      (Text.words text).map Number.float? = row.toList.map some) ∧
    (∀ e, readTuple kind n text = .error e ↔
      (∃ before word after, Text.words text = before ++ word :: after ∧
        (∀ w ∈ before, (Number.float? w).isSome = true) ∧ Number.float? word = none ∧
        e = .invalidNumber word kind) ∨
      ((∀ w ∈ Text.words text, (Number.float? w).isSome = true) ∧
        (Text.words text).length ≠ n ∧
        e = .wrongArity kind n (Text.words text).length)) ∧
    (∀ read rest, Text.words text = read ++ rest →
      (∀ w ∈ read, (Number.float? w).isSome = true) →
      ∃ f : Filling n, Filling.blank.read kind read = .ok f ∧ f.count = read.length ∧
        ∀ i : Fin n, f.row[i] = (read[(i : Nat)]?.bind Number.float?).getD 0) ∧
    ∀ (f : Filling n) (x : Float) (i : Fin n),
      (f.put x).row[i] = if i = f.count then x else f.row[i] := by
  refine ⟨fun row => readTuple_eq_ok_iff, fun e => readTuple_eq_error_iff, ?_,
    Filling.getElem_put⟩
  intro read rest _ hread
  obtain ⟨xs, hxs⟩ := Number.exists_spell hread
  refine ⟨Filling.filled xs, Filling.read_blank hxs, ?_, fun i => ?_⟩
  · rw [Filling.count_filled, Number.length_eq_of_spell hxs]
  · rw [Filling.getElem_filled, Number.getElem?_of_spell hxs]

/-- A third number is dropped and counted, and the bad word behind it is still
blamed. -/
theorem readTuple_outcome_overfull :
    readTuple "vector2" 2 "1 -2 3 x 4" = .error (.invalidNumber "x" "vector2") ∧
    ∃ f : Filling 2, Filling.blank.read "vector2" ["1", "-2", "3"] = .ok f ∧ f.count = 3 ∧
      f.row = ⟨#[1, -2], rfl⟩ := by
  have hwords : Text.words "1 -2 3 x 4" = ["1", "-2", "3"] ++ "x" :: ["4"] := by rfl
  have hnumbers : ∀ w ∈ ["1", "-2", "3"], (Number.float? w).isSome = true := by decide
  obtain ⟨-, herror, hreading, -⟩ := readTuple_outcome "vector2" 2 "1 -2 3 x 4"
  obtain ⟨f, hf, hcount, hrow⟩ := hreading _ _ hwords hnumbers
  refine ⟨(herror _).mpr (.inl ⟨_, _, _, hwords, hnumbers, by decide, rfl⟩), f, hf, hcount,
    Vector.ext fun i hi => ?_⟩
  match i, hi with
  | 0, _ =>
    have hword : Number.float? "1" = some 1 := by decide
    exact (hrow 0).trans (congrArg (Option.getD · 0) hword)
  | 1, _ =>
    have hword : Number.float? "-2" = some (-2) := by decide
    exact (hrow 1).trans (congrArg (Option.getD · 0) hword)

end Scene

/-
Numbers that read back.

What is written of a number is a numeral of the same word: a name, a zero, or the
shortest decimal of the value behind its sign.  A decimal is written as digits with a
point among them, and what is read of that is the integer that the digits are with a
power of ten.  That it is rounded to the value is shown where the decimal is made.

NaN is written without a sign, and there is only one: so it is the same number, too.

Main statements: `float?_textOfFloat`, `float32?_textOfFloat32`.
-/
import Scene.Proofs.Number.Bits
import Scene.Proofs.Number.Shortest

namespace Scene.Number

/-! ### Decimals -/

namespace Numeral

/-- Digits with a point among them are an integer and a power of ten. -/
theorem magnitude?_digits {ds fs : List Char} (hne : ds ≠ [])
    (h : ∀ c ∈ ds ++ fs, c.isDigit = true) :
    magnitude? (if fs = [] then ds else ds ++ '.' :: fs) =
      some (digitsValue (ds ++ fs), -(fs.length : Int)) := by
  obtain ⟨hds, hfs⟩ := List.forall_mem_append.mp h
  have hpoint : ('.' : Char).isDigit = false := by decide
  unfold magnitude?
  -- without a fraction there is no point either
  split
  · next hnil =>
    rw [List.takeWhile_eq_self_iff.mpr hds, List.dropWhile_eq_nil_iff.mpr hds, hnil]
    simp [hne, exponent?]
  · rw [List.takeWhile_append_of_pos hds, List.dropWhile_append_of_pos hds,
      List.takeWhile_cons_of_neg (by simp [hpoint]), List.dropWhile_cons_of_neg (by simp [hpoint]),
      List.append_nil]
    simp [List.takeWhile_eq_self_iff.mpr hfs, List.dropWhile_eq_nil_iff.mpr hfs, hne, exponent?]

theorem toLower_of_isDigit {c : Char} (h : c.isDigit = true) : c.toLower = c := by
  have hrange : 48 ≤ c.toNat ∧ c.toNat ≤ 57 := Char.isDigit_iff_toNat.mp h
  have hlower : ¬ c.val ≥ 'A'.val := by
    rw [ge_iff_le, UInt32.le_iff_toNat_le]
    show ¬ 65 ≤ c.toNat
    omega
  rw [Char.toLower, dif_neg fun h => hlower h.1]

/-- What begins with a digit is none of the names, and is read as a magnitude. -/
theorem ofString_digit {negative : Bool} {c : Char} {cs : List Char} {n : Nat} {k : Int}
    (hc : c.isDigit = true) (h : magnitude? (c :: cs) = some (n, k)) :
    ofString ((if negative then "-" else "") ++ String.ofList (c :: cs)) =
      .ok (.finite negative n k) := by
  have hsplit : splitSign ((if negative then "-" else "") ++ String.ofList (c :: cs)).toList =
      (negative, c :: cs) := by
    rw [String.toList_append, String.toList_ofList]
    cases negative with
    | true => rfl
    | false =>
      -- a digit is no sign
      have hminus : c ≠ '-' := by rintro rfl; exact absurd hc (by decide)
      have hplus : c ≠ '+' := by rintro rfl; exact absurd hc (by decide)
      show splitSign (c :: cs) = _
      rw [splitSign]
      · simp [hminus]
      · simp [hplus]
  -- and no name begins with a digit
  have hname {c' : Char} {rest : List Char} (hc' : c'.isDigit = false) :
      (String.ofList ((c :: cs).map Char.toLower) == String.ofList (c' :: rest)) = false := by
    rw [beq_eq_false_iff_ne, ne_eq, String.ofList_inj, List.map_cons, toLower_of_isDigit hc]
    rintro ⟨⟩
    rw [hc] at hc'
    cases hc'
  have hchars : ofChars? ((if negative then "-" else "") ++ String.ofList (c :: cs)).toList =
      some (.finite negative n k) := by
    unfold ofChars?
    rw [hsplit]
    dsimp only
    rw [show "inf" = String.ofList ['i', 'n', 'f'] by rfl, hname rfl,
      show "infinity" = String.ofList ['i', 'n', 'f', 'i', 'n', 'i', 't', 'y'] by rfl, hname rfl,
      show "nan" = String.ofList ['n', 'a', 'n'] by rfl, hname rfl, h]
    rfl
  have hne : ((if negative then "-" else "") ++ String.ofList (c :: cs)).isEmpty = false := by
    rw [← Bool.not_eq_true, String.isEmpty_iff]
    intro hempty
    rw [hempty] at hsplit
    cases hsplit
  rw [ofString, hne, hchars]
  rfl

/-- A decimal is read as it was written. -/
theorem ofString_positional (negative : Bool) (d : Decimal) :
    ofString ((if negative then "-" else "") ++ d.positional) = .ok (d.numeral negative) := by
  obtain ⟨ds, fs, hne, hdigits, htext, hvalue, hplaces⟩ := positional_spec d
  have hread := magnitude?_digits hne hdigits
  rw [htext, Decimal.numeral, ← hvalue, ← hplaces]
  obtain ⟨c, cs, rfl⟩ := List.exists_cons_of_ne_nil hne
  have hc := hdigits c List.mem_cons_self
  by_cases hnil : fs = []
  · rw [if_pos hnil] at hread ⊢
    exact ofString_digit hc hread
  · rw [if_neg hnil] at hread ⊢
    exact ofString_digit hc hread

end Numeral

/-! ### Words -/

/-- A word is a sign and a magnitude. -/
theorem exists_sign {w : Width} {word : Nat} (hword : word < 2 * w.signUnit) :
    ∃ negative : Bool, (if word < w.signUnit then "" else "-") = (if negative then "-" else "") ∧
      word % w.signUnit + (if negative then w.signUnit else 0) = word := by
  by_cases h : word < w.signUnit
  · refine ⟨false, if_pos h, ?_⟩
    rw [Nat.mod_eq_of_lt h]
    rfl
  · refine ⟨true, if_neg h, ?_⟩
    rw [Nat.mod_eq_sub_mod (not_lt.mp h), Nat.mod_eq_of_lt (by omega)]
    exact Nat.sub_add_cancel (not_lt.mp h)

/-- **What is written of a word is a numeral of the word**, if the word is none of the
NaNs but one. -/
theorem ofString_text {w : Width} (hw : w = .double ∨ w = .single) {word : Nat}
    (hword : word < 2 * w.signUnit)
    (hnan : w.infinity < word % w.signUnit → word = w.quietNaN) :
    ∃ n, Numeral.ofString (w.text word) = .ok n ∧ n.word w = word := by
  obtain ⟨negative, hsign, hsum⟩ := exists_sign hword
  unfold Width.text
  dsimp only
  rw [hsign]
  -- NaN, infinity, zero, or a decimal: as the text was made
  split
  · next h => exact ⟨.nan false, rfl, (hnan h).symm⟩
  · next hnumber =>
    split
    · next hinfinite =>
      -- the names and zero are read with either sign
      refine ⟨.infinite negative, by cases negative <;> rfl, ?_⟩
      rw [← hsum, hinfinite]
      rfl
    · next hfinite =>
      split
      · next hzero =>
        refine ⟨.finite negative 0 0, by cases negative <;> rfl, ?_⟩
        rw [← hsum, hzero]
        rfl
      · next hpos =>
        refine ⟨_, Numeral.ofString_positional negative _, ?_⟩
        rw [Numeral.word, magnitude_shortest hw (by omega) (by omega)]
        exact hsum

/-! ### Numbers -/

/-- **A number of double width is read as it was written.** -/
theorem float?_textOfFloat (x : Float) : float? (textOfFloat x) = some x := by
  have hsize : 2 * Width.double.signUnit = 2 ^ 64 := by decide
  obtain ⟨n, hread, hword⟩ :=
    ofString_text (.inl rfl) (hsize ▸ x.toBits.toNat_lt) toNat_toBits_of_gt
  rw [float?, textOfFloat, hread]
  show some (Float.ofBits (n.word .double).toUInt64) = some x
  rw [hword, Nat.toUInt64_eq, UInt64.ofNat_toNat, Float.ofBits_toBits]

/-- **So is one of single width.** -/
theorem float32?_textOfFloat32 (x : Float32) : float32? (textOfFloat32 x) = some x := by
  have hsize : 2 * Width.single.signUnit = 2 ^ 32 := by decide
  obtain ⟨n, hread, hword⟩ :=
    ofString_text (.inr rfl) (hsize ▸ x.toBits.toNat_lt) toNat_toBits_of_gt32
  rw [float32?, textOfFloat32, hread]
  show some (Float32.ofBits (n.word .single).toUInt32) = some x
  rw [hword, Nat.toUInt32_eq, UInt32.ofNat_toNat, Float32.ofBits_toBits]

end Scene.Number

/-
Numbers as words.

Whatever a number is, its text is one word: it is not empty and has no blank in
it, so a row of numbers can be cut again.  An integer is moreover the value of
its digits.
-/
import Scene.Number.Shortest
import Scene.Proofs.Text.Blank
import Scene.Value.Readable

namespace Scene.Number

open Text

/-! ### Texts without blanks -/

theorem isBlank_of_isDigit {c : Char} (h : c.isDigit = true) : isBlank c = false := by
  have hrange : 48 ≤ c.toNat ∧ c.toNat ≤ 57 := Char.isDigit_iff_toNat.mp h
  simp only [isBlank, Bool.or_eq_false_iff, Bool.and_eq_false_iff, beq_eq_false_iff_ne,
    decide_eq_false_iff_not]
  omega

theorem isWord_ofList {cs : List Char} (hne : cs ≠ []) (h : ∀ c ∈ cs, isBlank c = false) :
    IsWord (String.ofList cs) := by
  refine ⟨fun hempty => hne ?_, by rwa [String.toList_ofList]⟩
  rw [← String.toList_ofList (l := cs), hempty]
  rfl

theorem IsWord.prepend {s t : String} (hs : ∀ c ∈ s.toList, isBlank c = false) (ht : IsWord t) :
    IsWord (s ++ t) := by
  obtain ⟨hne, ht⟩ := ht
  refine ⟨by simp [hne], ?_⟩
  intro c hc
  rw [String.toList_append, List.mem_append] at hc
  exact hc.elim (hs c) (ht c)

theorem isDigit_of_mem_toDigits {n : Nat} {c : Char} (h : c ∈ Nat.toDigits 10 n) :
    c.isDigit = true := Nat.isDigit_of_mem_toDigits (by decide) (by decide) h

namespace Decimal

/-- How many digits stand behind the point. -/
def places (d : Decimal) : Nat := (-d.exponent).toNat

/-- The integer that the digits are without the point. -/
def numerator (d : Decimal) : Nat := d.digits * Nat.pow 10 d.exponent.toNat

end Decimal

theorem digitsValue_eq (ds : List Char) : digitsValue ds = Nat.ofDigitChars 10 ds 0 := rfl

/-- A decimal is written as digits, with a point among them if some stand behind it. -/
theorem positional_spec (d : Decimal) :
    ∃ ds fs : List Char, ds ≠ [] ∧ (∀ c ∈ ds ++ fs, c.isDigit = true) ∧
      d.positional = String.ofList (if fs = [] then ds else ds ++ '.' :: fs) ∧
      digitsValue (ds ++ fs) = d.numerator ∧ fs.length = d.places := by
  have hzero {n : Nat} {c : Char} (h : c ∈ List.replicate n '0') : c.isDigit = true := by
    rw [List.eq_of_mem_replicate h]
    rfl
  unfold Decimal.positional Decimal.numerator Decimal.places
  dsimp only
  split
  · next h =>
    -- no point: the zeros behind the digits stand for the power of ten
    refine ⟨Nat.toDigits 10 d.digits ++ List.replicate d.exponent.toNat '0', [], by simp, ?_,
      (if_pos rfl).symm ▸ rfl, ?_, ?_⟩
    · rw [List.append_nil]
      exact fun c hc => (List.mem_append.mp hc).elim isDigit_of_mem_toDigits hzero
    · rw [List.append_nil, digitsValue_eq, Nat.ofDigitChars_append, Nat.ofDigitChars_ten_toDigits,
        Nat.ofDigitChars_replicate_zero, Nat.mul_comm]
      rfl
    · rw [List.length_nil]
      omega
  · next h =>
    -- zeros in front, so that at least one digit stands before the point
    generalize hplaces : (-d.exponent).toNat = places
    generalize hpadded : List.replicate (places + 1 - (Nat.toDigits 10 d.digits).length) '0' ++
      Nat.toDigits 10 d.digits = padded
    have hlength : places < padded.length := by
      rw [← hpadded, List.length_append, List.length_replicate]
      omega
    have hfraction : (padded.drop (padded.length - places)).length = places := by
      rw [List.length_drop, Nat.sub_sub_self hlength.le]
    refine ⟨padded.take (padded.length - places), padded.drop (padded.length - places), ?_, ?_, ?_,
      ?_, hfraction⟩
    · rw [← List.length_pos_iff, List.length_take]
      omega
    · rw [List.take_append_drop, ← hpadded]
      exact fun c hc => (List.mem_append.mp hc).elim hzero isDigit_of_mem_toDigits
    · rw [if_neg (List.ne_nil_of_length_pos (by omega))]
    · rw [List.take_append_drop, ← hpadded, digitsValue_eq, Nat.ofDigitChars_append,
        Nat.ofDigitChars_replicate_zero, Nat.mul_zero, Nat.ofDigitChars_ten_toDigits,
        Int.toNat_of_nonpos (show d.exponent ≤ 0 by omega)]
      exact (Nat.mul_one _).symm

theorem isWord_positional (d : Decimal) : IsWord d.positional := by
  obtain ⟨ds, fs, hne, hdigits, htext, -, -⟩ := positional_spec d
  rw [htext]
  refine isWord_ofList ?_ fun c hc => ?_
  · split
    · exact hne
    · simp
  -- a point or a digit, and neither is a blank
  · by_cases hpoint : c = '.'
    · rw [hpoint]
      rfl
    · refine isBlank_of_isDigit (hdigits c ?_)
      split at hc
      · exact List.mem_append_left fs hc
      · simpa [hpoint] using hc

/-- The text of a number is a word, NaN and the infinities included. -/
theorem isWord_text (w : Width) (word : Nat) : IsWord (w.text word) := by
  have hsign : ∀ c ∈ (if word < w.signUnit then "" else "-" : String).toList,
      isBlank c = false := by
    split
    · simp
    · exact (show IsWord "-" by decide).2
  unfold Width.text
  dsimp only
  split
  · exact (show IsWord "NaN" by decide)
  · split
    · exact IsWord.prepend hsign (by decide)
    · split
      · exact IsWord.prepend hsign (by decide)
      · exact IsWord.prepend hsign (isWord_positional _)

/-! ### Integers -/

theorem digitValue?_of_isDigit {c : Char} (h : c.isDigit = true) :
    digitValue? 10 c = some (c.toNat - '0'.toNat) := by
  have hrange : 48 ≤ c.toNat ∧ c.toNat ≤ 57 := Char.isDigit_iff_toNat.mp h
  have hlt : c.toNat - 48 < 10 := by omega
  simpa [digitValue?, h] using hlt

theorem le_ofDigitChars (cs : List Char) (n : Nat) : n ≤ Nat.ofDigitChars 10 cs n := by
  rw [Nat.ofDigitChars_eq_ofDigitChars_zero]
  have := Nat.le_mul_of_pos_left n (Nat.pow_pos (n := cs.length) (by decide : 0 < 10))
  omega

/-- Digits are read as what they stand for, if that is in range. -/
theorem readDigits_of_isDigit {bound : Nat} {overflow : IntegerError} {cs : List Char} {n : Nat}
    (hcs : ∀ c ∈ cs, c.isDigit = true) (hbound : Nat.ofDigitChars 10 cs n ≤ bound) :
    readDigits 10 bound overflow n cs = .ok (Nat.ofDigitChars 10 cs n) := by
  induction cs generalizing n with
  | nil => rfl
  | cons c cs ih =>
    obtain ⟨hc, hcs⟩ := List.forall_mem_cons.mp hcs
    rw [Nat.ofDigitChars_cons] at hbound ⊢
    -- values only grow from digit to digit, so none on the way is out of range
    have hle := le_ofDigitChars cs (10 * n + (c.toNat - '0'.toNat))
    rw [readDigits, digitValue?_of_isDigit hc]
    dsimp only
    rw [if_neg (by omega), ih hcs hbound]

theorem readNatural_toString {bound n : Nat} (h : n ≤ bound) :
    readNatural bound (toString n).toList = .ok n := by
  rw [Nat.toString_eq_ofList_toDigits, String.toList_ofList]
  have hdigits : ∀ c ∈ Nat.toDigits 10 n, c.isDigit = true := fun c => isDigit_of_mem_toDigits
  have hread : readDigits 10 bound .tooLarge 0 (Nat.toDigits 10 n) = .ok n := by
    rw [readDigits_of_isDigit hdigits (by rwa [Nat.ofDigitChars_ten_toDigits]),
      Nat.ofDigitChars_ten_toDigits]
  cases hcs : Nat.toDigits 10 n with
  | nil => exact absurd hcs Nat.toDigits_ne_nil
  | cons c cs =>
    rw [hcs] at hdigits hread
    -- there is no sign in front of the digits
    have hplus : c ≠ '+' := by
      rintro rfl
      exact absurd (hdigits '+' List.mem_cons_self) (by decide)
    rw [readNatural]
    · exact hread
    · simp
    · simp [hplus]
    · simp [hplus]

theorem isWord_toString (n : Nat) : IsWord (toString n) := by
  rw [Nat.toString_eq_ofList_toDigits]
  exact isWord_ofList Nat.toDigits_ne_nil fun c hc =>
    isBlank_of_isDigit (isDigit_of_mem_toDigits hc)

end Scene.Number

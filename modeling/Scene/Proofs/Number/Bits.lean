/-
Numbers as bits.

Of the fields of a number, packed again, come the same bits.  Only the bits of NaNs
can be others than before, and there is one NaN that all of them become.  So a number
that is no NaN has the bits that it was made of: two numerals with one value have one
word, and one place in the order of numerals.

Comparisons of numbers are those of their fields.  Only the two facts about
thresholds are stated that reading depends on.
-/
import Mathlib
import Scene.Number.Width
import Scene.Object.Joint
import Scene.Shape

open Float.Model (Format UnpackedFloat)
open Float.Model.UnpackedFloat

namespace Scene.Number

/-! ### Bits of numbers -/

/-- A number that equals itself is no NaN. -/
theorem isNaN_unpack {x : Float} (h : (x == x) = true) : x.toModel.unpack.isNaN = false := by
  have hnan : x.isNaN = false := by simpa using h
  exact hnan

/-- A number that is no NaN has the bits that it was made of. -/
theorem toBits_ofBits {w : UInt64} (h : (Float.ofBits w == Float.ofBits w) = true) :
    (Float.ofBits w).toBits = w := by
  have hbits : (Float.ofBits w).toBits.toBitVec = _ := @pack_unpack .binary64 w.toBitVec (by decide)
  -- packing only changes the bits of a NaN
  split at hbits
  · have hnan : Float.ofBits w = Float.nan := by
      rw [← Float.toBits_inj, ← UInt64.toBitVec_inj, hbits]
      rfl
    exact absurd hnan (Float.beq_self_iff.mp h)
  · exact UInt64.toBitVec_inj.mp hbits

/-- Beyond infinity there is only the one NaN. -/
theorem eq_packedNaN_of_gt {spec : Format} {b : BitVec spec.numBits} (h : spec.Valid b)
    (hgt : (2 ^ spec.exponentBits - 1) * 2 ^ spec.mantissaBitsWithoutImplicit <
      b.toNat % 2 ^ (spec.mantissaBitsWithoutImplicit + spec.exponentBits)) :
    b = packedNaN spec := by
  -- the fields are a quotient and a remainder of the magnitude
  have hfield : (unpackExponent b).toNat =
      b.toNat / 2 ^ spec.mantissaBitsWithoutImplicit % 2 ^ spec.exponentBits := by
    rw [unpackExponent_def, BitVec.extractLsb'_toNat, Nat.shiftRight_eq_div_pow]
  have hfraction : (unpackMantissa b).toNat = b.toNat % 2 ^ spec.mantissaBitsWithoutImplicit := by
    rw [unpackMantissa_def, BitVec.extractLsb'_toNat, Nat.shiftRight_zero]
  have hone : 0 < 2 ^ spec.exponentBits := Nat.two_pow_pos _
  have hunit : 0 < 2 ^ spec.mantissaBitsWithoutImplicit := Nat.two_pow_pos _
  rw [Nat.pow_add] at hgt
  rw [← Nat.mod_mul_right_div_self] at hfield
  rw [← Nat.mod_mul_right_mod b.toNat _ (2 ^ spec.exponentBits)] at hfraction
  have hlt := Nat.mod_lt b.toNat (Nat.mul_pos hunit hone)
  generalize b.toNat % (2 ^ spec.mantissaBitsWithoutImplicit * 2 ^ spec.exponentBits) = n at *
  have hdiv := Nat.div_add_mod n (2 ^ spec.mantissaBitsWithoutImplicit)
  have hle : n / 2 ^ spec.mantissaBitsWithoutImplicit ≤ 2 ^ spec.exponentBits - 1 := by
    have := Nat.div_lt_of_lt_mul hlt
    omega
  refine h.eq_packedNaN (BitVec.eq_of_toNat_eq ?_) fun hzero => ?_
  · -- the exponent is full
    rw [BitVec.neg_one_eq_allOnes, BitVec.toNat_allOnes, hfield]
    exact Nat.le_antisymm hle ((Nat.le_div_iff_mul_le hunit).mpr hgt.le)
  · -- and without a fraction it would be infinity
    rw [hzero, BitVec.toNat_ofNat, Nat.zero_mod] at hfraction
    have := Nat.mul_le_mul_left (2 ^ spec.mantissaBitsWithoutImplicit) hle
    rw [Nat.mul_comm _ (2 ^ spec.exponentBits - 1)] at this
    omega

theorem toNat_toBits_of_gt {x : Float}
    (h : Width.double.infinity < x.toBits.toNat % Width.double.signUnit) :
    x.toBits.toNat = Width.double.quietNaN :=
  congrArg BitVec.toNat (eq_packedNaN_of_gt x.toModel.valid h)

theorem toNat_toBits_of_gt32 {x : Float32}
    (h : Width.single.infinity < x.toBits.toNat % Width.single.signUnit) :
    x.toBits.toNat = Width.single.quietNaN :=
  congrArg BitVec.toNat (eq_packedNaN_of_gt x.toModel.valid h)

/-! ### The order of numerals -/

namespace Numeral

theorem magnitude_le_quietNaN (n : Numeral) : n.magnitude .double ≤ Width.double.quietNaN := by
  have hinfinity : Width.double.infinity ≤ Width.double.quietNaN := by decide
  cases n with
  | infinite _ => exact hinfinity
  | nan _ => exact le_refl _
  | finite s digits exponent =>
    simp only [magnitude]
    split
    · exact Nat.zero_le _
    · split
      · exact hinfinity
      -- rounding does not go beyond infinity
      · rw [Width.round]
        split
        · exact Nat.zero_le _
        · exact (Nat.min_le_left _ _).trans hinfinity

theorem word_lt (n : Numeral) : n.word .double < 2 ^ 64 := by
  have hle := n.magnitude_le_quietNaN
  have hnan : Width.double.quietNaN < 2 ^ 63 := by decide
  have hsign : Width.double.signUnit = 2 ^ 63 := by decide
  unfold word
  split
  · omega
  · omega

theorem toNat_toBits_toFloat {n : Numeral} (h : (n.toFloat == n.toFloat) = true) :
    n.toFloat.toBits.toNat = n.word .double := by
  rw [toFloat, toBits_ofBits h, Nat.toUInt64_eq, UInt64.toNat_ofNat_of_lt' n.word_lt]

/-- The place of a numeral in the order is that of its word. -/
theorem rank_eq_of_word_eq {a b : Numeral} (h : a.word .double = b.word .double) :
    a.rank .double = b.rank .double := by
  have ha := a.magnitude_le_quietNaN
  have hb := b.magnitude_le_quietNaN
  have hnan : Width.double.quietNaN < Width.double.signUnit := by decide
  unfold word at h
  unfold rank
  split at h
  -- words of one sign differ as their magnitudes do, and of two signs by the sign bit
  · next hneg =>
    split at h
    · next hneg' => rw [if_pos hneg, if_pos hneg']; omega
    · omega
  · next hneg =>
    split at h
    · omega
    · next hneg' => rw [if_neg hneg, if_neg hneg']; omega

/-- Numerals of one value have one place in the order, unless it is a NaN. -/
theorem rank_eq_of_toFloat_eq {a b : Numeral} (h : a.toFloat = b.toFloat)
    (hself : (a.toFloat == a.toFloat) = true) : a.rank .double = b.rank .double := by
  refine rank_eq_of_word_eq ?_
  rw [← toNat_toBits_toFloat hself, h, toNat_toBits_toFloat (h ▸ hself)]

end Numeral

/-! ### Comparisons -/

theorem lt_iff {x y : Float} :
    x < y ↔ x.toModel.unpack.compare y.toModel.unpack = some .lt := by
  show decide (x.toModel < y.toModel) = true ↔ _
  rw [decide_eq_true_iff]
  show (x.toModel.unpack.compare y.toModel.unpack == some .lt) = true ↔ _
  rw [beq_iff_eq]

theorem le_iff {x y : Float} :
    x ≤ y ↔ ∃ o, x.toModel.unpack.compare y.toModel.unpack = some o ∧ o.isLE = true := by
  show decide (x.toModel ≤ y.toModel) = true ↔ _
  rw [decide_eq_true_iff]
  show (x.toModel.unpack.compare y.toModel.unpack).any (·.isLE) = true ↔ _
  rw [Option.any_eq_true]

/-- A number that is neither finite nor negative is above all finite ones. -/
theorem beq_unbounded {x : Float} (hself : (x == x) = true) (hfinite : x.isFinite = false)
    (hneg : ¬ x < 0) : (x == unbounded) = true := by
  have hnan := isNaN_unpack hself
  have hfinite : x.toModel.unpack.isFinite = false := hfinite
  rw [lt_iff] at hneg
  show (x.toModel.unpack.compare unbounded.toModel.unpack == some .eq) = true
  -- neither NaN, finite nor negative: that leaves one value
  cases hx : x.toModel.unpack with
  | infinity s =>
    rw [hx] at hneg
    cases s with
    | negative => exact absurd (by decide) hneg
    | positive => decide
  | notANumber =>
    rw [hx] at hnan
    cases hnan
  | zero s =>
    rw [hx] at hfinite
    cases hfinite
  | finite s m e hm =>
    rw [hx] at hfinite
    cases hfinite

theorem le_normalTolerance {x : Float} (h : x ≤ epsilon) : x ≤ Plane.normalTolerance := by
  rw [le_iff] at h ⊢
  cases hx : x.toModel.unpack with
  | infinity s =>
    rw [hx] at h
    cases s with
    | negative => exact ⟨.lt, by decide, rfl⟩
    | positive => revert h; decide
  | notANumber =>
    rw [hx] at h
    revert h
    decide
  | zero s => exact ⟨.lt, by rfl, rfl⟩
  | finite s m e hm =>
    rw [hx] at h
    cases s with
    | negative => exact ⟨.lt, by rfl, rfl⟩
    | positive =>
      obtain ⟨o, ho, hle⟩ := h
      -- the two thresholds, with their exponents
      have heps : epsilon.toModel.unpack = .finite .positive (2 ^ 52) (-104) (by decide) := by rfl
      have htol : Plane.normalTolerance.toModel.unpack =
          .finite .positive 4951760157141521 (-92) (by decide) := by rfl
      rw [heps] at ho
      rw [htol]
      simp only [UnpackedFloat.compare, Option.some.injEq] at ho ⊢
      have hexp : e ≤ -104 := by
        by_contra hgt
        rw [compare_gt_iff_gt.mpr (not_le.mp hgt)] at ho
        subst ho
        cases hle
      refine ⟨_, rfl, ?_⟩
      rw [compare_lt_iff_lt.mpr (by omega : e < -92)]
      rfl

end Scene.Number

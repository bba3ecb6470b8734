/-
Digits that are found in time.

The search for the shortest decimal goes down through the powers of ten, and it must
find a grid with a point in the interval before it gives up.  A grid has one if its
step is shorter than the interval is below the value, for then the next point below
the value cannot miss it.  So it is enough that the last grid is that fine, and this
is where the precision of a width has to be large enough for its range.  There is much
room: it is enough to compare a few powers of ten with powers of two.

What is found lies in the interval, and so it is rounded to the value.

Main statement: `magnitude_shortest`.
-/
import Scene.Proofs.Number.Rounding
import Scene.Proofs.Number.Text

namespace Scene.Number

/-! ### The grids -/

namespace Interval

variable {i : Interval} {k : Int}

/-- The power of ten of a grid. -/
theorem ten_zpow (k : Int) :
    ((Nat.pow 10 k.toNat : Nat) : ℚ) / (Nat.pow 10 (-k).toNat : Nat) = 10 ^ k := by
  rcases le_total 0 k with h | h
  · obtain ⟨n, rfl⟩ := Int.eq_ofNat_of_zero_le h
    simp
  · obtain ⟨n, hn⟩ := Int.eq_ofNat_of_zero_le (show 0 ≤ -k by omega)
    obtain rfl : k = -n := by omega
    simp

/-- What is taken of a grid lies in the interval. -/
theorem contains_of_onGrid? {digits : Nat} (h : i.onGrid? k = some digits) :
    i.contains (digits * Nat.pow 10 k.toNat) (Nat.pow 10 (-k).toNat) = true := by
  unfold onGrid? at h
  dsimp only at h
  split at h
  -- the point below the value, or else the one above it
  · next hbelow =>
    cases h
    exact (Bool.and_eq_true_iff.mp hbelow).1
  · split at h
    · next habove =>
      cases h
      exact habove
    · cases h

/-- The point of a grid next below the value lies in the interval, if a step of the grid
is shorter than the interval is below the value. -/
theorem contains_below {up down : Nat} (hscale : 0 < i.scale) (hup : 0 < up) (hdown : 0 < down)
    (hhigh : i.value < i.high)
    (h : (up : ℚ) / down < (i.value : ℚ) / i.scale - i.low / i.scale) :
    i.contains (i.value * down / (up * i.scale) * up) down = true := by
  have hs : (0 : ℚ) < i.scale := by exact_mod_cast hscale
  have hd : (0 : ℚ) < down := by exact_mod_cast hdown
  have hdiv := Nat.div_add_mod (i.value * down) (up * i.scale)
  have hmod := Nat.mod_lt (i.value * down) (Nat.mul_pos hup hscale)
  generalize i.value * down / (up * i.scale) = below at *
  generalize i.value * down % (up * i.scale) = rest at *
  -- what is left over is less than a step
  have hpoint : ((below * up : Nat) : ℚ) / down = i.value / i.scale - rest / (i.scale * down) := by
    have : (up * i.scale * below + rest : ℚ) = i.value * down := by exact_mod_cast hdiv
    push_cast
    field_simp
    linarith
  have hstep : (rest : ℚ) / (i.scale * down) < up / down := by
    have : (rest : ℚ) < up * i.scale := by exact_mod_cast hmod
    rw [mul_comm (i.scale : ℚ), ← div_div, div_lt_iff₀ hs, div_mul_eq_mul_div]
    gcongr
  have hrest : (0 : ℚ) ≤ rest / (i.scale * down) := by positivity
  have htop : (i.value : ℚ) / i.scale < i.high / i.scale := by gcongr
  rw [contains_iff hscale hdown, hpoint]
  exact ⟨by linarith, by linarith, .inr ⟨by linarith, by linarith⟩⟩

/-- So a grid that is fine enough has a point in the interval, this one or another. -/
theorem isSome_onGrid? (hscale : 0 < i.scale) (hhigh : i.value < i.high)
    (h : (10 : ℚ) ^ k < (i.value : ℚ) / i.scale - i.low / i.scale) :
    (i.onGrid? k).isSome = true := by
  have hup : 0 < Nat.pow 10 k.toNat := Nat.pow_pos (by decide)
  have hdown : 0 < Nat.pow 10 (-k).toNat := Nat.pow_pos (by decide)
  rw [← ten_zpow] at h
  have hbelow := contains_below hscale hup hdown hhigh h
  unfold onGrid?
  dsimp only
  rw [hbelow, Bool.true_and]
  split
  · rfl
  · next hother =>
    split
    · rfl
    · next habove =>
      rw [Bool.not_eq_true] at habove
      rw [habove] at hother
      exact absurd rfl hother

/-! ### The search -/

theorem contains_of_search {tries : Nat} {d : Decimal} (h : i.search tries k = some d) :
    i.contains d.numerator (Nat.pow 10 d.places) = true := by
  induction tries generalizing k with
  | zero => cases h
  | succ tries ih =>
    rw [search] at h
    split at h
    · next digits hgrid =>
      cases h
      exact contains_of_onGrid? hgrid
    · exact ih h

/-- It is enough that the last grid has a point in the interval. -/
theorem isSome_search {tries : Nat} (h : (i.onGrid? (k - tries)).isSome = true) :
    (i.search (tries + 1) k).isSome = true := by
  induction tries generalizing k with
  | zero =>
    obtain ⟨digits, hdigits⟩ := Option.isSome_iff_exists.mp h
    rw [Nat.cast_zero, sub_zero] at hdigits
    rw [search, hdigits]
    rfl
  | succ tries ih =>
    -- an earlier grid has a point, or the search comes one grid nearer to the last
    rw [search]
    split
    · rfl
    · refine ih ?_
      rwa [show k - 1 - (tries : Int) = k - (tries + 1 : Nat) by push_cast; ring]

end Interval

/-! ### The number of grids -/

/-- A power of ten is below a power of two, with some room: `10 ^ 3` is below `2 ^ 10`. -/
theorem ten_zpow_le_two_zpow {k j : Int} (a : Nat) (hk : k ≤ 3 * a) (hj : 10 * a ≤ j) :
    (10 : ℚ) ^ k ≤ 2 ^ j :=
  calc (10 : ℚ) ^ k ≤ 10 ^ (3 * a : Int) := zpow_le_zpow_right₀ (by norm_num) hk
    _ = (10 ^ 3) ^ a := by rw [zpow_mul, zpow_natCast]; norm_num
    _ ≤ (2 ^ 10) ^ a := by gcongr; norm_num
    _ = 2 ^ (10 * a : Int) := by rw [zpow_mul, zpow_natCast]; norm_num
    _ ≤ 2 ^ j := zpow_le_zpow_right₀ (by norm_num) hj

/-- Below one there is less room: `10 ^ 10` is above `2 ^ 33`. -/
theorem ten_zpow_le_two_zpow_neg {k j : Int} (b : Nat) (hk : k ≤ -(10 * b)) (hj : -(33 * b) ≤ j) :
    (10 : ℚ) ^ k ≤ 2 ^ j :=
  calc (10 : ℚ) ^ k ≤ 10 ^ (-(10 * b : Int)) := zpow_le_zpow_right₀ (by norm_num) hk
    _ = ((10 ^ 10) ^ b)⁻¹ := by rw [zpow_neg, zpow_mul, zpow_natCast]; norm_num
    _ ≤ ((2 ^ 33) ^ b)⁻¹ := by gcongr; norm_num
    _ = 2 ^ (-(33 * b : Int)) := by rw [zpow_neg, zpow_mul, zpow_natCast]; norm_num
    _ ≤ 2 ^ j := zpow_le_zpow_right₀ (by norm_num) hj

/-- The other way round, `2 ^ 3` is below `10`. -/
theorem two_zpow_le_ten_zpow {j k : Int} (a : Nat) (hj : j ≤ 3 * a) (hk : a ≤ k) :
    (2 : ℚ) ^ j ≤ 10 ^ k :=
  calc (2 : ℚ) ^ j ≤ 2 ^ (3 * a : Int) := zpow_le_zpow_right₀ (by norm_num) hj
    _ = (2 ^ 3) ^ a := by rw [zpow_mul, zpow_natCast]; norm_num
    _ ≤ 10 ^ a := by gcongr; norm_num
    _ = 10 ^ (a : Int) := (zpow_natCast _ _).symm
    _ ≤ 10 ^ k := zpow_le_zpow_right₀ (by norm_num) hk

namespace Width

variable {w : Width} {magnitude : Nat}

/-- The exponent of a finite value leaves out the one of infinity. -/
theorem exponent_le (hfinite : magnitude < w.infinity) :
    w.exponent magnitude = w.leastExponent ∨
      w.exponent magnitude + 3 ≤ w.leastExponent + (Nat.pow 2 w.exponentBits : Nat) := by
  obtain ⟨-, hleast, hfull, hmag⟩ := w.unpack_spec magnitude
  refine hfull.symm.imp_right fun hfull => ?_
  unfold infinity at hfinite
  have hfield :
      (w.exponent magnitude - w.leastExponent).toNat + 1 < Nat.pow 2 w.exponentBits - 1 := by
    refine Nat.lt_of_mul_lt_mul_right (a := w.exponentUnit) ?_
    rw [Nat.add_mul, Nat.one_mul]
    omega
  omega

end Width

namespace Interval

variable {w : Width} {magnitude : Nat}

/-- How far the interval goes down. -/
theorem margin_around (h : 0 < magnitude) :
    ((around w magnitude).value : ℚ) / (around w magnitude).scale -
        (around w magnitude).low / (around w magnitude).scale =
      margin w magnitude * 2 ^ w.exponent magnitude := by
  rw [value_around, low_around h]
  ring

theorem value_lt_high : (around w magnitude).value < (around w magnitude).high :=
  Nat.mul_lt_mul_of_pos_right (by omega) (Nat.two_pow_pos _)

theorem decimalBound_around (hw : 0 < w.precision) (magnitude : Nat) :
    (around w magnitude).decimalBound ≤
    (w.precision + w.exponent magnitude) * 30103 / 100000 + 2 := by
  obtain ⟨hbound, -, -, -⟩ := w.unpack_spec magnitude
  have hunit : 2 * w.exponentUnit = 2 ^ w.precision := by
    rw [Width.exponentUnit, Nat.pow_eq, ← Nat.pow_add_one', Nat.sub_add_cancel hw]
  have hscale : (around w magnitude).scale.log2 = 2 + (-w.exponent magnitude).toNat := by
    show (4 * 2 ^ (-w.exponent magnitude).toNat).log2 = _
    rw [show 4 = 2 ^ 2 by rfl, ← Nat.pow_add, Nat.log2_two_pow]
  -- the upper end has two bits more than the significand
  have hhigh : (around w magnitude).high.log2 < w.precision + 2 + (w.exponent magnitude).toNat := by
    rw [Nat.log2_lt (Nat.ne_zero_of_lt value_lt_high), Nat.pow_add, Nat.pow_add]
    refine Nat.mul_lt_mul_of_pos_right ?_ (Nat.two_pow_pos _)
    show 4 * w.significand magnitude + 2 < 2 ^ w.precision * 2 ^ 2
    omega
  unfold decimalBound
  omega

end Interval

/-- The sizes of the two widths that are used. -/
theorem sizes {w : Width} (hw : w = .double ∨ w = .single) :
    (w.precision = 53 ∧ w.leastExponent = -1074 ∧ Nat.pow 2 w.exponentBits = 2048) ∨
      (w.precision = 24 ∧ w.leastExponent = -149 ∧ Nat.pow 2 w.exponentBits = 256) := by
  rcases hw with rfl | rfl
  · exact .inl (by decide)
  · exact .inr (by decide)

/-- The search ends in time at the two widths that are used. -/
theorem isSome_search_around {w : Width} (hw : w = .double ∨ w = .single) {magnitude : Nat}
    (hpos : 0 < magnitude) (hfinite : magnitude < w.infinity) :
    ((Interval.around w magnitude).search w.precision
      (Interval.around w magnitude).decimalBound).isSome = true := by
  have hsize := sizes hw
  have hprecision : 0 < w.precision := by omega
  have hbound := Interval.decimalBound_around hprecision magnitude
  have hexponent := Width.exponent_le hfinite
  obtain ⟨-, hleast, -, -⟩ := w.unpack_spec magnitude
  rw [← Nat.sub_add_cancel hprecision]
  refine Interval.isSome_search (Interval.isSome_onGrid? Interval.scale_pos
    Interval.value_lt_high ?_)
  rw [Interval.margin_around hpos]
  generalize (Interval.around w magnitude).decimalBound = k at *
  generalize w.exponent magnitude = q at *
  have hquarter := (Interval.margin_bounds w magnitude).1
  -- the last grid is finer than an eighth of the last bit
  have hgrid : (10 : ℚ) ^ (k - (w.precision - 1 : Nat)) ≤ 2 ^ (q - 3) := by
    rcases le_total 3 q with hq | hq
    · exact ten_zpow_le_two_zpow ((k - (w.precision - 1 : Nat) + 2) / 3).toNat (by omega) (by omega)
    · exact ten_zpow_le_two_zpow_neg (((w.precision - 1 : Nat) - k) / 10).toNat (by omega)
        (by omega)
  calc (10 : ℚ) ^ (k - (w.precision - 1 : Nat)) ≤ 2 ^ (q - 3) := hgrid
    _ = 1 / 8 * 2 ^ q := by rw [zpow_sub₀ two_ne_zero]; norm_num; ring
    _ < Interval.margin w magnitude * 2 ^ q := by gcongr; linarith

section

variable {w : Width} {magnitude : Nat} (hw : w = .double ∨ w = .single) (hpos : 0 < magnitude)
  (hfinite : magnitude < w.infinity)

include hw hpos hfinite

/-- The shortest decimal lies in the interval. -/
theorem contains_shortest : (Interval.around w magnitude).contains
    (Decimal.shortest w magnitude).numerator (Nat.pow 10 (Decimal.shortest w magnitude).places) =
      true := by
  obtain ⟨d, hd⟩ := Option.isSome_iff_exists.mp (isSome_search_around hw hpos hfinite)
  have hshortest : Decimal.shortest w magnitude = d := by
    unfold Decimal.shortest
    dsimp only
    rw [hd]
    rfl
  rw [hshortest]
  exact Interval.contains_of_search hd

/-- The finite values are within the range of powers of ten. -/
theorem bounds_of_contains {n d : Nat} (hd : 0 < d)
    (h : (Interval.around w magnitude).contains n d = true) :
    (10 : ℚ) ^ (-401 : Int) ≤ n / d ∧ (n : ℚ) / d < 10 ^ (400 : Int) := by
  rw [Interval.contains_iff Interval.scale_pos hd, Interval.low_around hpos,
    Interval.high_around] at h
  obtain ⟨hlow, hhigh, -⟩ := h
  obtain ⟨hbound, hleast, -, -⟩ := w.unpack_spec magnitude
  have hexponent := Width.exponent_le hfinite
  have hsize := sizes hw
  have hspan := Width.two_exponentUnit (w := w) (by omega)
  have hsig : (1 : ℚ) ≤ w.significand magnitude := by exact_mod_cast w.significand_pos hpos
  have hbound : (w.significand magnitude : ℚ) + 1 ≤ 2 * w.exponentUnit := by exact_mod_cast hbound
  have hmargin := (Interval.margin_bounds w magnitude).2
  generalize w.exponent magnitude = q at *
  constructor
  · -- the interval begins no lower than half a unit of the least exponent
    calc (10 : ℚ) ^ (-401 : Int) ≤ 2 ^ (q - 1) :=
        ten_zpow_le_two_zpow_neg 40 (by omega) (by omega)
      _ = 1 / 2 * 2 ^ q := by rw [zpow_sub_one₀ two_ne_zero]; ring
      _ ≤ (w.significand magnitude - Interval.margin w magnitude) * 2 ^ q := by gcongr; linarith
      _ ≤ n / d := hlow
  · calc (n : ℚ) / d ≤ (w.significand magnitude + 1 / 2) * 2 ^ q := hhigh
      _ < 2 * w.exponentUnit * 2 ^ q := by gcongr; linarith
      _ = 2 ^ (w.precision + q) := by rw [hspan, ← zpow_add₀ two_ne_zero]
      _ ≤ 10 ^ (400 : Int) := two_zpow_le_ten_zpow 400 (by omega) (by omega)

end

/-- The digits of a number tell its size. -/
theorem zpow_length_toDigits {n : Nat} (hn : 0 < n) (k : Int) :
    (10 : ℚ) ^ ((Nat.toDigits 10 n).length + k - 1) ≤ n * 10 ^ k ∧
      (n : ℚ) * 10 ^ k < 10 ^ ((Nat.toDigits 10 n).length + k) := by
  have hlength : 0 < (Nat.toDigits 10 n).length := Nat.length_toDigits_pos
  -- the least number with one digit more is a power of ten
  have hlt : n < 10 ^ (Nat.toDigits 10 n).length :=
    (Nat.length_toDigits_le_iff (by decide) hlength).mp le_rfl
  have hle : 10 ^ ((Nat.toDigits 10 n).length - 1) ≤ n := by
    rcases Nat.eq_zero_or_pos ((Nat.toDigits 10 n).length - 1) with h | h
    · rw [h]
      exact hn
    · by_contra hn
      have := (Nat.length_toDigits_le_iff (by decide) h).mpr (not_le.mp hn)
      omega
  have hten : (10 : ℚ) ≠ 0 := by norm_num
  constructor
  · have hpred : ((Nat.toDigits 10 n).length : Int) + k - 1 =
        ((Nat.toDigits 10 n).length - 1 : Nat) + k := by omega
    rw [hpred, zpow_add₀ hten, zpow_natCast]
    gcongr
    exact_mod_cast hle
  · rw [zpow_add₀ hten, zpow_natCast]
    gcongr
    exact_mod_cast hlt

/-- The decimal as it is read, with a sign. -/
def Decimal.numeral (negative : Bool) (d : Decimal) : Numeral :=
  .finite negative d.numerator (-(d.places : Int))

/-- **The shortest decimal of a value is rounded to the value.** -/
theorem magnitude_shortest {w : Width} (hw : w = .double ∨ w = .single) {magnitude : Nat}
    (hpos : 0 < magnitude) (hfinite : magnitude < w.infinity) (negative : Bool) :
    ((Decimal.shortest w magnitude).numeral negative).magnitude w = magnitude := by
  have hcontains := contains_shortest hw hpos hfinite
  unfold Decimal.numeral
  generalize (Decimal.shortest w magnitude).numerator = n at *
  generalize (Decimal.shortest w magnitude).places = places at *
  have hplaces : 0 < Nat.pow 10 places := Nat.pow_pos (by decide)
  obtain ⟨hlow, hhigh⟩ := bounds_of_contains hw hpos hfinite hplaces hcontains
  have hratio : (n : ℚ) / (Nat.pow 10 places : Nat) = n * 10 ^ (-(places : Int)) := by
    rw [zpow_neg, zpow_natCast, Nat.pow_eq, Nat.cast_pow]
    rfl
  -- zero is in no interval, so it is not the shortest decimal
  have hn : 0 < n := by
    by_contra h0
    rw [Nat.eq_zero_of_not_pos h0, Nat.cast_zero, zero_div] at hlow
    exact absurd hlow (not_le.mpr (by positivity))
  rw [hratio] at hlow hhigh
  obtain ⟨hlow', hhigh'⟩ := zpow_length_toDigits hn (-places)
  have hone : (1 : ℚ) < 10 := by norm_num
  have htop := (zpow_lt_zpow_iff_right₀ hone).mp (hlow'.trans_lt hhigh)
  have hbottom := (zpow_lt_zpow_iff_right₀ hone).mp (hlow.trans_lt hhigh')
  -- the number of digits is in the range in which numerals are rounded
  unfold Numeral.magnitude Numeral.decimalRange
  dsimp only
  rw [if_neg (by omega), if_neg (by omega), neg_neg, Int.toNat_natCast,
    Int.toNat_of_nonpos (by omega)]
  show w.round (n * 1) _ = _
  rw [Nat.mul_one]
  have hprecision := sizes hw
  exact Width.round_of_contains (by omega) hpos hfinite hplaces hcontains

end Scene.Number

/-
What is rounded to a value.

A value of a width is a significand in units of its last bit.  The interval around
it reaches half a unit to either side, and a quarter downwards from a power of two,
where the grid below is finer.  Here both are stated as rational numbers, so that
the powers of two, which stand now on one side of a comparison of natural numbers
and now on the other, are those of one exponent.

Main statement: `round_of_contains`, that every ratio in the interval is rounded to
the value.
-/
import Mathlib.Algebra.Order.Field.Basic
import Mathlib.Algebra.Order.Field.Power
import Mathlib.Algebra.Order.Ring.Rat
import Mathlib.Tactic.FieldSimp
import Mathlib.Tactic.Linarith
import Mathlib.Tactic.NormNum
import Mathlib.Tactic.Ring
import Scene.Number.Shortest

namespace Scene.Number

namespace Width

/-! ### Exact ratios -/

/-- A ratio, measured in units of `2 ^ q`. -/
theorem ratio_scaled (num den : Nat) (q : Int) :
    ((num * Nat.pow 2 (-q).toNat : Nat) : ℚ) / (den * Nat.pow 2 q.toNat : Nat) =
      (num : ℚ) / den / 2 ^ q := by
  have hpow (k : Nat) : ((Nat.pow 2 k : Nat) : ℚ) = 2 ^ (k : Int) := by
    rw [Nat.pow_eq, Nat.cast_pow, zpow_natCast]
    rfl
  rw [Nat.cast_mul, Nat.cast_mul, hpow, hpow]
  rcases le_total 0 q with h | h
  · rw [Int.toNat_of_nonneg h, Int.toNat_of_nonpos (by omega : -q ≤ 0)]
    simp [div_div]
  · rw [Int.toNat_of_nonneg (by omega : 0 ≤ -q), Int.toNat_of_nonpos h, zpow_neg]
    simp [div_eq_mul_inv]
    ring

/-- An integer at most half a step away is the nearest one. -/
theorem nearestEven_of_bounds {num den n : Nat} (hden : 0 < den)
    (hlow : 2 * (n * den) ≤ 2 * num + den) (hhigh : 2 * num ≤ 2 * (n * den) + den)
    (heven : n % 2 = 0 ∨ (2 * (n * den) < 2 * num + den ∧ 2 * num < 2 * (n * den) + den)) :
    nearestEven num den = n := by
  have hdiv := Nat.div_add_mod num den
  have hmod := Nat.mod_lt num hden
  unfold nearestEven
  dsimp only
  generalize num / den = k at hdiv ⊢
  generalize num % den = rest at hdiv hmod ⊢
  -- the quotient is the integer itself or the one before it
  have hle : k ≤ n := by
    by_contra h
    have := Nat.mul_le_mul_left den (show n + 1 ≤ k by omega)
    rw [Nat.mul_add] at this
    rw [Nat.mul_comm n den] at hhigh
    omega
  have hge : n ≤ k + 1 := by
    by_contra h
    have := Nat.mul_le_mul_left den (show k + 2 ≤ n by omega)
    rw [Nat.mul_add] at this
    rw [Nat.mul_comm n den] at hlow
    omega
  obtain rfl | rfl : k = n ∨ k + 1 = n := by omega
  · rw [Nat.mul_comm k den] at *
    rw [if_pos (by omega)]
  · rw [Nat.add_mul, Nat.mul_comm k den] at *
    rw [if_neg (by omega)]

/-- The rounding to integers, by what it is near to. -/
theorem nearestEven_eq {num den n : Nat} (hden : 0 < den)
    (hlow : (n : ℚ) - 1 / 2 ≤ (num : ℚ) / den) (hhigh : (num : ℚ) / den ≤ n + 1 / 2)
    (heven : n % 2 = 0 ∨ ((n : ℚ) - 1 / 2 < (num : ℚ) / den ∧ (num : ℚ) / den < n + 1 / 2)) :
    nearestEven num den = n := by
  have hd : (0 : ℚ) < den := by exact_mod_cast hden
  refine nearestEven_of_bounds hden ?_ ?_ (heven.imp_right fun ⟨hlow, hhigh⟩ => ⟨?_, ?_⟩)
  · rw [le_div_iff₀ hd] at hlow
    have : (2 * (n * den) : ℚ) ≤ 2 * num + den := by linarith
    exact_mod_cast this
  · rw [div_le_iff₀ hd] at hhigh
    have : (2 * num : ℚ) ≤ 2 * (n * den) + den := by linarith
    exact_mod_cast this
  · rw [lt_div_iff₀ hd] at hlow
    have : (2 * (n * den) : ℚ) < 2 * num + den := by linarith
    exact_mod_cast this
  · rw [div_lt_iff₀ hd] at hhigh
    have : (2 * num : ℚ) < 2 * (n * den) + den := by linarith
    exact_mod_cast this

theorem zpow_log2 {n : Nat} (hn : 0 < n) :
    (2 : ℚ) ^ (n.log2 : Int) ≤ n ∧ (n : ℚ) < 2 ^ ((n.log2 : Int) + 1) := by
  constructor
  · rw [zpow_natCast]
    exact_mod_cast Nat.log2_self_le hn.ne'
  · have : n < 2 ^ (n.log2 + 1) := Nat.lt_log2_self
    rw [← Nat.cast_succ, zpow_natCast]
    exact_mod_cast this

/-- The lengths of two numbers leave two possibilities for their ratio. -/
theorem zpow_log2_sub {num den : Nat} (hnum : 0 < num) (hden : 0 < den) :
    (2 : ℚ) ^ ((num.log2 : Int) - den.log2 - 1) ≤ (num : ℚ) / den ∧
      (num : ℚ) / den < 2 ^ ((num.log2 : Int) - den.log2 + 1) := by
  have hd : (0 : ℚ) < den := by exact_mod_cast hden
  obtain ⟨hnum₁, hnum₂⟩ := zpow_log2 hnum
  obtain ⟨hden₁, hden₂⟩ := zpow_log2 hden
  constructor
  · rw [le_div_iff₀ hd]
    calc (2 : ℚ) ^ ((num.log2 : Int) - den.log2 - 1) * den
        ≤ 2 ^ ((num.log2 : Int) - den.log2 - 1) * 2 ^ ((den.log2 : Int) + 1) := by gcongr
      _ = 2 ^ (num.log2 : Int) := by rw [← zpow_add₀ two_ne_zero]; congr 1; ring
      _ ≤ num := hnum₁
  · rw [div_lt_iff₀ hd]
    calc (num : ℚ) < 2 ^ ((num.log2 : Int) + 1) := hnum₂
      _ = 2 ^ ((num.log2 : Int) - den.log2 + 1) * 2 ^ (den.log2 : Int) := by
        rw [← zpow_add₀ two_ne_zero]; congr 1; ring
      _ ≤ 2 ^ ((num.log2 : Int) - den.log2 + 1) * den := by gcongr

/-- The binary exponent of a ratio is the greatest power of two below it. -/
theorem zpow_binaryExponent {num den : Nat} (hnum : 0 < num) (hden : 0 < den) :
    (2 : ℚ) ^ binaryExponent num den ≤ (num : ℚ) / den ∧
      (num : ℚ) / den < 2 ^ (binaryExponent num den + 1) := by
  obtain ⟨hlow, hhigh⟩ := zpow_log2_sub hnum hden
  unfold binaryExponent
  dsimp only
  generalize (num.log2 : Int) - den.log2 = e at hlow hhigh ⊢
  -- the two products compare as the ratio and the power do
  have hcompare : num * Nat.pow 2 (-e).toNat < den * Nat.pow 2 e.toNat ↔
      (num : ℚ) / den < 2 ^ e := by
    have hpos : (0 : ℚ) < (den * Nat.pow 2 e.toNat : Nat) := by
      exact_mod_cast Nat.mul_pos hden (Nat.two_pow_pos _)
    rw [← Nat.cast_lt (α := ℚ), ← div_lt_one hpos, ratio_scaled, div_lt_one (zpow_pos two_pos e)]
  -- one comparison decides between the two possibilities
  split
  · next h => exact ⟨hlow, by simpa using hcompare.mp h⟩
  · next h => exact ⟨not_lt.mp (mt hcompare.mpr h), hhigh⟩

theorem binaryExponent_eq {num den : Nat} (hnum : 0 < num) (hden : 0 < den) {e : Int}
    (hlow : (2 : ℚ) ^ e ≤ (num : ℚ) / den) (hhigh : (num : ℚ) / den < 2 ^ (e + 1)) :
    binaryExponent num den = e := by
  obtain ⟨h₁, h₂⟩ := zpow_binaryExponent hnum hden
  have hle := (zpow_lt_zpow_iff_right₀ one_lt_two).mp (hlow.trans_lt h₂)
  have hge := (zpow_lt_zpow_iff_right₀ one_lt_two).mp (h₁.trans_lt hhigh)
  omega

/-! ### Significands and exponents -/

theorem two_exponentUnit {w : Width} (h : 0 < w.precision) :
    (2 : ℚ) * w.exponentUnit = 2 ^ (w.precision : Int) := by
  rw [exponentUnit, Nat.pow_eq, zpow_natCast, Nat.cast_pow, Nat.cast_ofNat, ← pow_succ',
    Nat.sub_add_cancel h]

section

variable (w : Width) (magnitude : Nat)

/-- The significand of a magnitude. -/
def significand : Nat := (w.unpack magnitude).1

/-- The exponent of the last bit of a magnitude. -/
def exponent : Int := (w.unpack magnitude).2

/-- The significand is full, or the exponent is the least one. -/
theorem unpack_spec :
    w.significand magnitude < 2 * w.exponentUnit ∧ w.leastExponent ≤ w.exponent magnitude ∧
      (w.exponentUnit ≤ w.significand magnitude ∨ w.exponent magnitude = w.leastExponent) ∧
      magnitude = w.significand magnitude +
        (w.exponent magnitude - w.leastExponent).toNat * w.exponentUnit := by
  have hunit : 0 < w.exponentUnit := Nat.two_pow_pos _
  have hmod := Nat.mod_lt magnitude hunit
  have hdiv := Nat.div_add_mod magnitude w.exponentUnit
  unfold significand exponent unpack
  dsimp only
  split
  · next h =>
    -- subnormal: the fraction alone
    rw [h] at hdiv
    refine ⟨by omega, le_refl _, .inr rfl, ?_⟩
    simpa using hdiv.symm
  · next h =>
    -- normal: the leading bit is one unit of the exponent
    generalize magnitude / w.exponentUnit = field at h hdiv ⊢
    refine ⟨by omega, by omega, .inl (by omega), ?_⟩
    have hfield : (w.leastExponent + field - 1 - w.leastExponent).toNat = field - 1 := by omega
    obtain ⟨k, rfl⟩ : ∃ k, field = k + 1 := ⟨field - 1, by omega⟩
    rw [hfield, Nat.add_sub_cancel]
    rw [Nat.mul_comm, Nat.add_mul] at hdiv
    omega

variable {w magnitude}

theorem significand_pos (h : 0 < magnitude) : 0 < w.significand magnitude := by
  obtain ⟨-, -, hfull, hmag⟩ := w.unpack_spec magnitude
  have hunit : 0 < w.exponentUnit := Nat.two_pow_pos _
  -- a full significand is positive, and at the least exponent it is the magnitude itself
  rcases hfull with hfull | hleast
  · omega
  · rw [hleast, sub_self, Int.toNat_zero, Nat.zero_mul] at hmag
    omega

theorem pack_eq (hfinite : magnitude < w.infinity) {m : Nat} {q : Int}
    (h : magnitude = m + (q - w.leastExponent).toNat * w.exponentUnit) :
    w.pack m q = magnitude := by
  unfold pack
  omega

end

end Width

/-! ### Intervals -/

namespace Interval

variable {w : Width} {magnitude : Nat}

/-- How far the interval of a magnitude goes down, in units of its last bit. -/
def margin (w : Width) (magnitude : Nat) : ℚ :=
  if w.significand magnitude = w.exponentUnit ∧ magnitude ≠ w.exponentUnit then 1 / 4 else 1 / 2

theorem margin_bounds (w : Width) (magnitude : Nat) :
    1 / 4 ≤ margin w magnitude ∧ margin w magnitude ≤ 1 / 2 := by
  unfold margin
  split
  · norm_num
  · norm_num

theorem scale_pos : 0 < (around w magnitude).scale :=
  Nat.mul_pos (by decide) (Nat.two_pow_pos _)

theorem cast_div_scale (a : Nat) :
    ((a * Nat.pow 2 (w.exponent magnitude).toNat : Nat) : ℚ) / (around w magnitude).scale =
      (a : ℚ) / 4 * 2 ^ w.exponent magnitude := by
  have := Width.ratio_scaled a 4 (-w.exponent magnitude)
  rw [neg_neg, zpow_neg, div_inv_eq_mul] at this
  exact_mod_cast this

theorem value_around : ((around w magnitude).value : ℚ) / (around w magnitude).scale =
    w.significand magnitude * 2 ^ w.exponent magnitude := by
  show ((4 * w.significand magnitude * Nat.pow 2 (w.exponent magnitude).toNat : Nat) : ℚ) / _ = _
  rw [cast_div_scale]
  push_cast
  ring

theorem high_around : ((around w magnitude).high : ℚ) / (around w magnitude).scale =
    (w.significand magnitude + 1 / 2) * 2 ^ w.exponent magnitude := by
  show (((4 * w.significand magnitude + 2) * Nat.pow 2 (w.exponent magnitude).toNat : Nat) : ℚ) / _
    = _
  rw [cast_div_scale]
  push_cast
  ring

theorem low_around (h : 0 < magnitude) :
    ((around w magnitude).low : ℚ) / (around w magnitude).scale =
      (w.significand magnitude - margin w magnitude) * 2 ^ w.exponent magnitude := by
  have hpos := w.significand_pos h
  show (((4 * w.significand magnitude - if w.significand magnitude = w.exponentUnit ∧
    magnitude ≠ w.exponentUnit then 1 else 2) * Nat.pow 2 (w.exponent magnitude).toNat : Nat) : ℚ)
    / _ = _
  rw [cast_div_scale, margin]
  -- the two margins: a quarter from a power of two, and half a unit else
  split
  · rw [Nat.cast_sub (by omega)]
    push_cast
    ring
  · rw [Nat.cast_sub (by omega)]
    push_cast
    ring

theorem closed_around : (around w magnitude).closed = (w.significand magnitude % 2 == 0) := rfl

/-- Membership in an interval, as a comparison of ratios. -/
theorem contains_iff {i : Interval} (hscale : 0 < i.scale) {n d : Nat} (hd : 0 < d) :
    i.contains n d = true ↔
      (i.low : ℚ) / i.scale ≤ n / d ∧ (n : ℚ) / d ≤ i.high / i.scale ∧
        (i.closed = true ∨ ((i.low : ℚ) / i.scale < n / d ∧ (n : ℚ) / d < i.high / i.scale)) := by
  have hs : (0 : ℚ) < i.scale := by exact_mod_cast hscale
  have hd : (0 : ℚ) < d := by exact_mod_cast hd
  -- products of natural numbers compare as the fractions do
  have hle {a b : Nat} : (a : ℚ) / i.scale ≤ b / d ↔ a * d ≤ b * i.scale := by
    rw [div_le_div_iff₀ hs hd]
    exact_mod_cast Iff.rfl
  have hge {a b : Nat} : (b : ℚ) / d ≤ a / i.scale ↔ b * i.scale ≤ a * d := by
    rw [div_le_div_iff₀ hd hs]
    exact_mod_cast Iff.rfl
  rw [← not_le, ← not_le, hle, hge, hge, hle]
  unfold contains
  dsimp only
  cases i.closed with
  | true => simp
  | false =>
    simp only [Bool.false_eq_true, if_false, Bool.and_eq_true, decide_eq_true_eq, false_or]
    omega

end Interval

/-! ### Rounding -/

namespace Width

variable {w : Width} {magnitude n d : Nat}

/-- A ratio of `x` units is rounded to the integer that is nearest to `x`, if the
unit is the one that its binary exponent asks for. -/
theorem round_eq_pack {m : Nat} {q : Int} {x : ℚ} (hn : 0 < n) (hd : 0 < d)
    (hx : (n : ℚ) / d = x * 2 ^ q)
    (hq : max w.leastExponent (binaryExponent n d - (w.precision - 1 : Nat)) = q)
    (hlow : (m : ℚ) - 1 / 2 ≤ x) (hhigh : x ≤ m + 1 / 2)
    (heven : m % 2 = 0 ∨ ((m : ℚ) - 1 / 2 < x ∧ x < m + 1 / 2)) :
    w.round n d = w.pack m q := by
  have hunits : ((n * Nat.pow 2 (-q).toNat : Nat) : ℚ) / (d * Nat.pow 2 q.toNat : Nat) = x := by
    rw [ratio_scaled, hx]
    field_simp
  have hnear : nearestEven (n * Nat.pow 2 (-q).toNat) (d * Nat.pow 2 q.toNat) = m := by
    refine nearestEven_eq (Nat.mul_pos hd (Nat.two_pow_pos _)) ?_ ?_ ?_
    · rwa [hunits]
    · rwa [hunits]
    · rwa [hunits]
  unfold round
  rw [if_neg hn.ne']
  dsimp only
  rw [hq, hnear]

/-- The case of a ratio that needs the unit of the last bit: it has as many digits as
the significand, or there is no finer unit. -/
theorem round_on_grid {m : Nat} {q : Int} {x : ℚ} (hw : 0 < w.precision)
    (hfinite : magnitude < w.infinity) (hn : 0 < n) (hd : 0 < d) (hx : (n : ℚ) / d = x * 2 ^ q)
    (hleast : w.leastExponent ≤ q) (hm : m < 2 * w.exponentUnit)
    (hmag : magnitude = m + (q - w.leastExponent).toNat * w.exponentUnit)
    (hgrid : (w.exponentUnit : ℚ) ≤ x ∨ q = w.leastExponent)
    (hlow : (m : ℚ) - 1 / 2 ≤ x) (hhigh : x ≤ m + 1 / 2)
    (heven : m % 2 = 0 ∨ ((m : ℚ) - 1 / 2 < x ∧ x < m + 1 / 2)) : w.round n d = magnitude := by
  obtain ⟨hbelow, habove⟩ := zpow_binaryExponent hn hd
  rw [hx] at hbelow habove
  have hspan := two_exponentUnit hw
  have hq0 : (0 : ℚ) < 2 ^ q := zpow_pos two_pos q
  -- no more digits than the significand
  have hshort : binaryExponent n d < w.precision + q := by
    refine (zpow_lt_zpow_iff_right₀ one_lt_two).mp (hbelow.trans_lt ?_)
    have hm : (m : ℚ) + 1 ≤ 2 * w.exponentUnit := by exact_mod_cast hm
    rw [zpow_add₀ two_ne_zero, ← hspan]
    gcongr
    linarith
  -- and no fewer, unless the unit is the least one
  have hexponent : max w.leastExponent (binaryExponent n d - (w.precision - 1 : Nat)) = q := by
    rcases hgrid with hfull | hleast
    · have : (w.precision : Int) - 1 + q < binaryExponent n d + 1 := by
        refine (zpow_lt_zpow_iff_right₀ one_lt_two).mp (lt_of_le_of_lt ?_ habove)
        rw [zpow_add₀ two_ne_zero, zpow_sub_one₀ two_ne_zero, ← hspan]
        gcongr
        linarith
      omega
    · omega
  exact (round_eq_pack hn hd hx hexponent hlow hhigh heven).trans (pack_eq hfinite hmag)

/-- The case of a ratio just below a power of two, which is rounded in halves of the
unit. -/
theorem round_below_power {q : Int} {x : ℚ} (hw : 2 ≤ w.precision)
    (hfinite : magnitude < w.infinity) (hn : 0 < n) (hd : 0 < d) (hx : (n : ℚ) / d = x * 2 ^ q)
    (hleast : w.leastExponent < q)
    (hmag : magnitude = w.exponentUnit + (q - w.leastExponent).toNat * w.exponentUnit)
    (hlow : (w.exponentUnit : ℚ) - 1 / 4 ≤ x) (hhigh : x < w.exponentUnit) :
    w.round n d = magnitude := by
  have hq0 : (0 : ℚ) < 2 ^ q := zpow_pos two_pos q
  have hunit : (w.exponentUnit : ℚ) = 2 ^ ((w.precision : Int) - 1) := by
    rw [zpow_sub_one₀ two_ne_zero, ← two_exponentUnit (by omega)]
    ring
  have hunit2 : (2 : ℚ) ≤ w.exponentUnit := by
    have : 2 ≤ 2 ^ (w.precision - 1) := Nat.le_self_pow (by omega) 2
    exact_mod_cast this
  -- the ratio has a digit less than the power that it is just below
  have hexponent : binaryExponent n d = w.precision - 2 + q := by
    refine binaryExponent_eq hn hd ?_ ?_
    · rw [hx, zpow_add₀ two_ne_zero, show (w.precision : Int) - 2 = w.precision - 1 - 1 by ring,
        zpow_sub_one₀ two_ne_zero, ← hunit]
      gcongr
      linarith
    · rw [hx, show (w.precision : Int) - 2 + q + 1 = w.precision - 1 + q by ring,
        zpow_add₀ two_ne_zero, ← hunit]
      gcongr
  have hhalves : (n : ℚ) / d = 2 * x * 2 ^ (q - 1) := by
    rw [hx, zpow_sub_one₀ two_ne_zero]
    ring
  -- a magnitude is also that of twice its significand with the exponent before
  have hstep : (q - w.leastExponent).toNat = (q - 1 - w.leastExponent).toNat + 1 := by omega
  rw [hstep, Nat.add_mul] at hmag
  refine (round_eq_pack (m := 2 * w.exponentUnit) hn hd hhalves (by omega) ?_ ?_
    (.inl (by omega))).trans (pack_eq hfinite (by omega))
  · push_cast
    linarith
  · push_cast
    linarith

/-- **Every ratio in the interval of a magnitude is rounded to the magnitude.**  Below a
power of two the grid is finer, and there the ratio is rounded to the next power
of two on that grid. -/
theorem round_of_contains (hw : 2 ≤ w.precision) (hpos : 0 < magnitude)
    (hfinite : magnitude < w.infinity) (hd : 0 < d)
    (h : (Interval.around w magnitude).contains n d = true) : w.round n d = magnitude := by
  obtain ⟨hbound, hleast, hfull, hmag⟩ := w.unpack_spec magnitude
  obtain ⟨-, hmargin⟩ := Interval.margin_bounds w magnitude
  have hsig : (1 : ℚ) ≤ w.significand magnitude := by exact_mod_cast w.significand_pos hpos
  have hq0 : (0 : ℚ) < 2 ^ w.exponent magnitude := zpow_pos two_pos _
  rw [Interval.contains_iff Interval.scale_pos hd, Interval.low_around hpos, Interval.high_around,
    Interval.closed_around, beq_iff_eq] at h
  -- the ratio in units of the last bit
  obtain ⟨x, hx⟩ : ∃ x : ℚ, (n : ℚ) / d = x * 2 ^ w.exponent magnitude :=
    ⟨n / d / 2 ^ w.exponent magnitude, by field_simp⟩
  rw [hx] at h
  simp only [mul_le_mul_iff_left₀ hq0, mul_lt_mul_iff_left₀ hq0] at h
  obtain ⟨hlow, hhigh, heven⟩ := h
  -- the interval of a positive magnitude does not reach down to zero
  have hn : 0 < n := by
    have : (0 : ℚ) < n / d := by rw [hx]; exact mul_pos (by linarith) hq0
    by_contra h0
    rw [Nat.eq_zero_of_not_pos h0, Nat.cast_zero, zero_div] at this
    exact lt_irrefl _ this
  by_cases hgrid : (w.exponentUnit : ℚ) ≤ x ∨ w.exponent magnitude = w.leastExponent
  · -- half a unit on either side is what the rounding allows
    exact round_on_grid (by omega) hfinite hn hd hx hleast hbound hmag hgrid (by linarith) hhigh
      (heven.imp_right fun h => ⟨by linarith, h.2⟩)
  · -- the significand is a power of two, and the ratio is below it
    rw [not_or, not_le] at hgrid
    obtain ⟨hbelow, hcoarse⟩ := hgrid
    have hpower : w.significand magnitude = w.exponentUnit := by
      have hle : w.significand magnitude < w.exponentUnit + 1 := by
        have : (w.significand magnitude : ℚ) < w.exponentUnit + 1 := by linarith
        exact_mod_cast this
      have := hfull.resolve_right hcoarse
      omega
    have hne : magnitude ≠ w.exponentUnit := by
      have : 0 < w.exponentUnit := Nat.two_pow_pos _
      have := Nat.le_mul_of_pos_left w.exponentUnit
        (show 0 < (w.exponent magnitude - w.leastExponent).toNat by omega)
      omega
    have hquarter : Interval.margin w magnitude = 1 / 4 := if_pos ⟨hpower, hne⟩
    rw [hquarter, hpower] at hlow
    rw [hpower] at hmag
    exact round_below_power hw hfinite hn hd hx (by omega) hmag hlow hbelow

end Width

end Scene.Number

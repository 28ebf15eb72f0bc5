import TreeLowering.Proofs.Number.ReadBack

/-! # The nearest double

Rounding to nearest with ties to even, said of exact values. The ends of a rounding interval are halfway
to the neighbours of its double, so what lies in it rounds to this double. No rational rounds to two doubles
of one sign: they would be neighbours, and of two neighbours one is odd. -/
namespace TreeLowering
set_option autoImplicit false

/-! ## Distances -/

def signed (negative : Bool) (r : ℚ) : ℚ := if negative then -r else r

theorem abs_signed (negative : Bool) {r : ℚ} (h : 0 ≤ r) : |signed negative r| = r := by
  cases negative <;> simp [signed, abs_of_nonneg h]

theorem abs_sub_signed (negative : Bool) (q r : ℚ) : |q - signed negative r| = |signed negative q - r| := by
  cases negative
  · rfl
  · rw [signed, signed, if_pos rfl, if_pos rfl, sub_neg_eq_add, ← neg_add', abs_neg]

theorem abs_signed_sub_signed (negative : Bool) (q r : ℚ) :
    |signed negative q - signed negative r| = |q - r| := by
  rw [abs_sub_signed]
  cases negative <;> simp [signed]

theorem abs_sub_le_of_le_midpoint {p a b : ℚ} (hab : a < b) (h : 2 * p ≤ a + b) :
    |p - a| ≤ |p - b| ∧ (|p - b| = |p - a| → 2 * p = a + b) := by
  rw [abs_of_nonpos (by linarith : p - b ≤ 0)]
  rcases abs_cases (p - a) with ⟨hAbs, _⟩ | ⟨hAbs, _⟩ <;> rw [hAbs] <;>
    exact ⟨by linarith, fun _ => by linarith⟩

theorem abs_sub_le_of_midpoint_le {p a b : ℚ} (hab : b < a) (h : a + b ≤ 2 * p) :
    |p - a| ≤ |p - b| ∧ (|p - b| = |p - a| → 2 * p = a + b) := by
  rw [abs_of_nonneg (by linarith : 0 ≤ p - b)]
  rcases abs_cases (p - a) with ⟨hAbs, _⟩ | ⟨hAbs, _⟩ <;> rw [hAbs] <;>
    exact ⟨by linarith, fun _ => by linarith⟩

theorem abs_sub_lt_of_between {p a b c : ℚ} (hab : a < b) (hbc : b < c) (h : |p - a| = |p - c|) :
    |p - b| < |p - a| := by
  have hMidpoint : p - a = c - p := by
    rcases abs_eq_abs.mp h with hEq | hEq <;> linarith
  rw [hMidpoint, abs_of_pos (by linarith : 0 < c - p), abs_lt]
  constructor <;> linarith

namespace Binary64

/-! ## Exact values -/

def absValue (x : Binary64) : ℚ := x.units / unitsPerOne

def value (x : Binary64) : ℚ := signed x.negative x.absValue

/-- Halfway between the largest finite double and `2 ^ 1024`: from here on rationals round to infinity. -/
def overflowBound : ℚ := 2 ^ 1024 - 2 ^ 970

/-- A rational rounds to a finite double: none is nearer, and if another value is as near, the significand is
even. -/
structure Rounds (q : ℚ) (x : Binary64) : Prop where
  finite : x.magnitude < infinityBits
  inRange : |q| < overflowBound
  nearest : ∀ y : Binary64, y.magnitude < infinityBits → |q - x.value| ≤ |q - y.value|
  even : ∀ y : Binary64, y.magnitude < infinityBits → y.value ≠ x.value →
    |q - y.value| = |q - x.value| → x.significand % 2 = 0

theorem absValue_nonneg (x : Binary64) : 0 ≤ x.absValue := by
  rw [absValue]
  positivity

theorem absValue_zero : (zero false).absValue = 0 := by
  have hUnits : (zero false).units = 0 := by decide
  rw [absValue, hUnits, Nat.cast_zero, zero_div]

theorem scale_mono {x y : Binary64} (h : x.magnitude ≤ y.magnitude) : x.scale ≤ y.scale :=
  Nat.sub_le_sub_right (Nat.div_le_div_right h) 1

theorem units_lt_units {x y : Binary64} (h : x.magnitude < y.magnitude) : x.units + 2 ^ x.scale ≤ y.units := by
  have hx := x.magnitude_eq
  have hy := y.magnitude_eq
  rw [units_eq, units_eq, ← Nat.succ_mul]
  rcases Nat.eq_or_lt_of_le (scale_mono h.le) with hScale | hScale
  · rw [← hScale]
    apply Nat.mul_le_mul_right
    omega
  · -- A double of a larger scale has its hidden bit.
    have hNormal := le_significand (Nat.zero_lt_of_lt hScale)
    calc (x.significand + 1) * 2 ^ x.scale ≤ 2 ^ 53 * 2 ^ x.scale := Nat.mul_le_mul_right _ x.significand_lt
      _ = 2 ^ 52 * 2 ^ (x.scale + 1) := by ring
      _ ≤ y.significand * 2 ^ y.scale := Nat.mul_le_mul hNormal (Nat.pow_le_pow_right (by decide) hScale)

theorem absValue_lt_absValue {x y : Binary64} (h : x.magnitude < y.magnitude) : x.absValue < y.absValue := by
  have hUnits : x.units < y.units := (Nat.lt_add_of_pos_right (by positivity)).trans_le (units_lt_units h)
  have hOne : (0 : ℚ) < unitsPerOne := by exact_mod_cast unitsPerOne_pos
  exact div_lt_div_of_pos_right (by exact_mod_cast hUnits) hOne

theorem absValue_inj {x y : Binary64} : x.absValue = y.absValue ↔ x.magnitude = y.magnitude := by
  constructor
  · intro h
    rcases Nat.lt_trichotomy x.magnitude y.magnitude with hLess | hEqual | hMore
    · exact absurd h (absValue_lt_absValue hLess).ne
    · exact hEqual
    · exact absurd h (absValue_lt_absValue hMore).ne'
  · intro h
    rw [absValue, absValue, units_congr h]

theorem value_inj {x y : Binary64} (hSign : x.negative = y.negative) :
    x.value = y.value ↔ x.magnitude = y.magnitude := by
  rw [← absValue_inj, value, value, hSign]
  constructor
  · intro h
    have hAbs := congrArg abs h
    rwa [abs_signed _ x.absValue_nonneg, abs_signed _ y.absValue_nonneg] at hAbs
  · intro h
    rw [h]

/-! ## The ends of the interval are halfway to the neighbours -/

theorem interval_high_le {x y : Binary64} (h : x.magnitude < y.magnitude) :
    2 * x.interval.high ≤ 4 * x.units + 4 * y.units := by
  have hGap := units_lt_units h
  simp only [interval, Nat.pow_eq]
  omega

theorem le_interval_low {x y : Binary64} (h : y.magnitude < x.magnitude) :
    4 * x.units + 4 * y.units ≤ 2 * x.interval.low := by
  have hx := x.magnitude_eq
  have hy := y.magnitude_eq
  have hNormal := @le_significand x
  have hLess := y.significand_lt
  simp only [interval, Nat.pow_eq]
  generalize hHalf : (if x.significand = 2 ^ 52 ∧ 0 < x.scale then 2 ^ x.scale else 2 * 2 ^ x.scale) = half
  suffices hGap : 2 * y.units + half ≤ 2 * x.units by omega
  rw [units_eq, units_eq]
  rcases Nat.eq_or_lt_of_le (scale_mono h.le) with hScale | hScale
  · have hHalfLe : half ≤ 2 * 2 ^ x.scale := by
      rw [← hHalf]
      split <;> omega
    have hMul : (y.significand + 1) * 2 ^ x.scale ≤ x.significand * 2 ^ x.scale := by
      apply Nat.mul_le_mul_right
      omega
    rw [hScale]
    linarith
  · have hDouble : 2 * (y.significand * 2 ^ y.scale) ≤ y.significand * 2 ^ x.scale := by
      calc 2 * (y.significand * 2 ^ y.scale) = y.significand * 2 ^ (y.scale + 1) := by ring
        _ ≤ y.significand * 2 ^ x.scale := Nat.mul_le_mul_left _ (Nat.pow_le_pow_right (by decide) hScale)
    have hPos : 0 < x.scale := Nat.zero_lt_of_lt hScale
    have hLeast := hNormal hPos
    by_cases hPower : x.significand = 2 ^ 52
    · -- Just below a power of two the gap is half as wide.
      rw [if_pos ⟨hPower, hPos⟩] at hHalf
      have hMul : (y.significand + 1) * 2 ^ x.scale ≤ 2 * x.significand * 2 ^ x.scale := by
        apply Nat.mul_le_mul_right
        omega
      linarith
    · rw [if_neg fun hBoth => hPower hBoth.1] at hHalf
      have hMul : (y.significand + 2) * 2 ^ x.scale ≤ 2 * x.significand * 2 ^ x.scale := by
        apply Nat.mul_le_mul_right
        omega
      linarith

/-- Halfway beyond the largest significand of a scale, and before that if the significand is even. -/
theorem interval_high_le_limit {x : Binary64} {k : Nat} (hScale : x.scale ≤ k) :
    x.interval.high ≤ (2 ^ 55 - 2) * 2 ^ k ∧
      (x.significand % 2 = 0 → x.interval.high < (2 ^ 55 - 2) * 2 ^ k) := by
  have hPower : 2 ^ x.scale ≤ 2 ^ k := Nat.pow_le_pow_right (by decide) hScale
  have hLess := x.significand_lt
  have hHigh : x.interval.high = (4 * x.significand + 2) * 2 ^ x.scale := by
    simp only [interval, units_eq, Nat.pow_eq]
    ring
  rw [hHigh]
  constructor
  · apply Nat.mul_le_mul _ hPower
    omega
  · intro hEven
    calc (4 * x.significand + 2) * 2 ^ x.scale ≤ (2 ^ 55 - 6) * 2 ^ k := Nat.mul_le_mul (by omega) hPower
      _ < (2 ^ 55 - 2) * 2 ^ k := Nat.mul_lt_mul_of_pos_right (by norm_num) (by positivity)

theorem overflowBound_mul : overflowBound * RoundingInterval.quartersPerOne = ((2 ^ 55 - 2) * 2 ^ 2045 : ℕ) := by
  -- The exponents are variables, so that no power is computed.
  have hPowers : ∀ a b c d : ℕ, c = a + 54 → d = a + b + 1 →
      ((2 : ℚ) ^ c - 2 ^ a) * (4 * 2 ^ b : ℕ) = ((2 ^ 55 - 2) * 2 ^ d : ℕ) := by
    rintro a b c d rfl rfl
    push_cast
    ring
  rw [overflowBound, RoundingInterval.quartersPerOne, unitsPerOne_eq]
  exact hPowers 970 1074 1024 2045 rfl rfl

/-! ## What lies in the interval -/

section
variable {x : Binary64} {num den : Nat}

/-- A quotient in the interval is at one of its ends only if the significand is even. -/
theorem ends_of_contains (hDen : 0 < den) (h : x.interval.contains num den = true) :
    (x.interval.low : ℚ) ≤ num / den * RoundingInterval.quartersPerOne ∧
      (num / den * RoundingInterval.quartersPerOne : ℚ) ≤ x.interval.high ∧
      (num / den * RoundingInterval.quartersPerOne = (x.interval.low : ℚ) ∨
        num / den * RoundingInterval.quartersPerOne = (x.interval.high : ℚ) → x.significand % 2 = 0) := by
  have hClosed : x.interval.closed = true ↔ x.significand % 2 = 0 := beq_iff_eq
  rw [x.interval.contains_iff hDen] at h
  split at h
  · rename_i hEven
    exact ⟨h.1, h.2, fun _ => hClosed.mp hEven⟩
  · refine ⟨h.1.le, h.2.le, ?_⟩
    rintro (hLow | hHigh)
    · exact absurd hLow h.1.ne'
    · exact absurd hHigh h.2.ne

theorem absValue_nearest (hDen : 0 < den) (h : x.interval.contains num den = true) (y : Binary64) :
    |(num / den : ℚ) - x.absValue| ≤ |num / den - y.absValue| ∧
      (y.absValue ≠ x.absValue → |(num / den : ℚ) - y.absValue| = |num / den - x.absValue| →
        x.significand % 2 = 0) := by
  obtain ⟨hLow, hHigh, hEnds⟩ := ends_of_contains hDen h
  have hOne : (0 : ℚ) < unitsPerOne := by exact_mod_cast unitsPerOne_pos
  have hQuarters : (RoundingInterval.quartersPerOne : ℚ) = 4 * unitsPerOne := by
    rw [RoundingInterval.quartersPerOne]
    push_cast
    rfl
  rw [hQuarters] at hLow hHigh hEnds
  have hx : x.absValue * unitsPerOne = x.units := div_mul_cancel₀ _ hOne.ne'
  have hy : y.absValue * unitsPerOne = y.units := div_mul_cancel₀ _ hOne.ne'
  generalize (num : ℚ) / den = r at *
  rcases Nat.lt_trichotomy x.magnitude y.magnitude with hLess | hEqual | hMore
  · have hHalfway : (2 * x.interval.high : ℚ) ≤ 4 * x.units + 4 * y.units := by
      exact_mod_cast interval_high_le hLess
    obtain ⟨hNear, hTie⟩ := abs_sub_le_of_le_midpoint (p := r) (absValue_lt_absValue hLess) (by nlinarith)
    refine ⟨hNear, fun _ hEq => hEnds (.inr (le_antisymm hHigh ?_))⟩
    have hMidpoint := hTie hEq
    nlinarith
  · have hSame : y.absValue = x.absValue := absValue_inj.mpr hEqual.symm
    exact ⟨by rw [hSame], fun hNe => absurd hSame hNe⟩
  · have hHalfway : (4 * x.units + 4 * y.units : ℚ) ≤ 2 * x.interval.low := by
      exact_mod_cast le_interval_low hMore
    obtain ⟨hNear, hTie⟩ := abs_sub_le_of_midpoint_le (p := r) (absValue_lt_absValue hMore) (by nlinarith)
    refine ⟨hNear, fun _ hEq => hEnds (.inl (le_antisymm ?_ hLow))⟩
    have hMidpoint := hTie hEq
    nlinarith

theorem lt_overflowBound (hFinite : x.magnitude < infinityBits) (hDen : 0 < den)
    (h : x.interval.contains num den = true) : (num / den : ℚ) < overflowBound := by
  obtain ⟨-, hHigh, hEnds⟩ := ends_of_contains hDen h
  have hScale : x.scale ≤ 2045 := by
    simp only [scale, infinityBits, Nat.pow_eq] at *
    omega
  obtain ⟨hLe, hLt⟩ := interval_high_le_limit hScale
  have hQuarters : (0 : ℚ) < RoundingInterval.quartersPerOne := by
    exact_mod_cast Nat.mul_pos (by decide) unitsPerOne_pos
  apply lt_of_mul_lt_mul_right _ hQuarters.le
  rw [overflowBound_mul]
  rcases hHigh.lt_or_eq with hBelow | hEnd
  · exact hBelow.trans_le (by exact_mod_cast hLe)
  · rw [hEnd]
    exact_mod_cast hLt (hEnds (.inr hEnd))

theorem rounds_of_contains (hFinite : x.magnitude < infinityBits) (hDen : 0 < den)
    (h : x.interval.contains num den = true) : Rounds (signed x.negative (num / den)) x := by
  have hNonneg : (0 : ℚ) ≤ num / den := by positivity
  have hDistance : |signed x.negative (num / den) - x.value| = |num / den - x.absValue| :=
    abs_signed_sub_signed x.negative _ _
  -- Whatever its sign is, another double is at least as far as its magnitude.
  have hFar : ∀ y : Binary64, |(num / den : ℚ) - y.absValue| ≤ |signed x.negative (num / den) - y.value| := by
    intro y
    have hAbs := abs_abs_sub_abs_le (signed x.negative (num / den)) y.value
    rwa [abs_signed x.negative hNonneg, value, abs_signed y.negative y.absValue_nonneg] at hAbs
  refine ⟨hFinite, ?_, fun y _ => ?_, fun y _ hNe hTie => ?_⟩
  · rw [abs_signed x.negative hNonneg]
    exact lt_overflowBound hFinite hDen h
  · rw [hDistance]
    exact (absValue_nearest hDen h y).1.trans (hFar y)
  · rw [hDistance] at hTie
    obtain ⟨hNear, hEven⟩ := absValue_nearest hDen h y
    refine hEven (fun hSame => hNe ?_) (le_antisymm (hTie ▸ hFar y) hNear)
    by_cases hSign : y.negative = x.negative
    · rw [value, value, hSign, hSame]
    · -- Of two opposite values as near as each other and no farther than zero, both are zero.
      have hSum : |signed x.negative (num / den) - y.value| = num / den + x.absValue := by
        have hOpposite : y.negative = !x.negative := by cases hx : x.negative <;> simp_all
        have hSumNonneg := add_nonneg hNonneg x.absValue_nonneg
        rw [value, hOpposite, hSame, ← abs_signed x.negative hSumNonneg]
        cases x.negative <;> simp [signed, sub_eq_add_neg, add_comm]
      have hZero := (absValue_nearest hDen h (zero false)).1
      rw [absValue_zero, sub_zero, abs_of_nonneg hNonneg, ← hTie, hSum] at hZero
      have hNone : x.absValue = 0 := le_antisymm (by linarith) x.absValue_nonneg
      simp [value, signed, hSame, hNone]

end

/-! ## Only one double of a sign -/

theorem negative_ofMagnitude (negative : Bool) {m : Nat} (h : m < 2 ^ 63) :
    (ofMagnitude negative m).negative = negative := by
  have hBits : (if negative then Nat.pow 2 63 + m else m) < 2 ^ 64 := by
    rw [Nat.pow_eq]
    split <;> omega
  rw [ofMagnitude, Binary64.negative, UInt64.toNat_ofNat_of_lt' hBits]
  cases negative with
  | false => simpa using h
  | true => simp

theorem exists_magnitude_eq (negative : Bool) {m : Nat} (h : m < infinityBits) :
    ∃ z : Binary64, z.negative = negative ∧ z.magnitude = m := by
  have hBits : m < 2 ^ 63 := h.trans (by decide)
  exact ⟨ofMagnitude negative m, negative_ofMagnitude negative hBits, magnitude_ofMagnitude negative hBits⟩

theorem eq_of_magnitude_eq {x y : Binary64} (hSign : x.negative = y.negative)
    (h : x.magnitude = y.magnitude) : x = y := by
  obtain ⟨a⟩ := x
  obtain ⟨b⟩ := y
  have ha := a.toNat_lt
  have hb := b.toNat_lt
  simp only [negative, decide_eq_decide, magnitude, Nat.pow_eq] at hSign h
  rw [UInt64.toNat_inj.mp (by omega : a.toNat = b.toNat)]

theorem Rounds.eq {q : ℚ} {x y : Binary64} (hx : Rounds q x) (hy : Rounds q y)
    (hSign : x.negative = y.negative) : x = y := by
  apply eq_of_magnitude_eq hSign
  by_contra hNe
  wlog hLess : x.magnitude < y.magnitude generalizing x y
  · apply this hy hx hSign.symm (Ne.symm hNe)
    omega
  have hValues : x.value ≠ y.value := fun h => hNe ((value_inj hSign).mp h)
  have hTie : |q - x.value| = |q - y.value| :=
    le_antisymm (hx.nearest y hy.finite) (hy.nearest x hx.finite)
  have hxEven := hx.even y hy.finite hValues.symm hTie.symm
  have hyEven := hy.even x hx.finite hValues hTie
  -- Since both significands are even, a double stands between the two, and it is nearer.
  have hBetween : x.magnitude + 1 < y.magnitude := by
    have hxMagnitude := x.magnitude_eq
    have hyMagnitude := y.magnitude_eq
    omega
  obtain ⟨z, hzSign, hz⟩ := exists_magnitude_eq x.negative (hBetween.trans hy.finite)
  have hDistance : ∀ w : Binary64, w.negative = x.negative →
      |q - w.value| = |signed x.negative q - w.absValue| := by
    intro w hw
    rw [value, hw, abs_sub_signed]
  have hNearer : |q - z.value| < |q - x.value| := by
    rw [hDistance x rfl, hDistance y hSign.symm] at hTie
    rw [hDistance x rfl, hDistance z hzSign]
    apply abs_sub_lt_of_between _ _ hTie
    · apply absValue_lt_absValue
      omega
    · apply absValue_lt_absValue
      omega
  have hzFinite : z.magnitude < infinityBits := by
    rw [hz]
    exact hBetween.trans hy.finite
  exact absurd (hx.nearest z hzFinite) (not_le.mpr hNearer)

end Binary64
end TreeLowering

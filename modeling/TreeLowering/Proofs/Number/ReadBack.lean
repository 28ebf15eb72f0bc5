import Mathlib.Tactic.FieldSimp
import Mathlib.Tactic.Linarith
import Mathlib.Tactic.NormNum
import Mathlib.Tactic.Positivity
import Mathlib.Tactic.Ring
import TreeLowering.Number.Notation

/-! # Number literals read back

A quotient in the rounding interval of a double is nearest to that double, and the digits of a literal
lie in the interval of the double they are printed for. -/
namespace TreeLowering
set_option autoImplicit false

/-- An integer within half a unit of a quotient is the rounded quotient, if it is even in a tie. -/
theorem roundHalfEven_eq {a b m : Nat} (hb : 0 < b) (hLow : 2 * m * b ≤ 2 * a + b)
    (hHigh : 2 * a ≤ (2 * m + 1) * b) (hTieLow : 2 * m * b = 2 * a + b → m % 2 = 0)
    (hTieHigh : 2 * a = (2 * m + 1) * b → m % 2 = 0) : roundHalfEven a b = m := by
  have hSplit : b * (a / b) + a % b = a := Nat.div_add_mod a b
  have hRest : a % b < b := Nat.mod_lt a hb
  simp only [roundHalfEven]
  generalize a / b = q at *
  generalize a % b = r at *
  subst hSplit
  split
  · -- Less than half remains, so `m` is the whole part.
    have hLe : m ≤ q := by
      by_contra hLt
      nlinarith
    have hGe : q ≤ m := by
      by_contra hLt
      nlinarith
    omega
  · split
    · have hLe : m ≤ q + 1 := by
        by_contra hLt
        nlinarith
      have hGe : q + 1 ≤ m := by
        by_contra hLt
        nlinarith
      omega
    · have hHalf : b = 2 * r := by omega
      have hLe : m ≤ q + 1 := by
        by_contra hLt
        nlinarith
      have hGe : q ≤ m := by
        by_contra hLt
        nlinarith
      rcases Nat.lt_or_eq_of_le hGe with hLt | rfl
      · obtain rfl : m = q + 1 := by omega
        have hEven := hTieLow (by rw [hHalf]; ring)
        omega
      · have hEven := hTieHigh (by rw [hHalf]; ring)
        omega

namespace Binary64

/-! ## Parts of a double -/

theorem magnitude_eq (x : Binary64) : x.magnitude = x.scale * 2 ^ 52 + x.significand := by
  simp only [significand, scale, Nat.pow_eq]
  omega

theorem significand_lt (x : Binary64) : x.significand < 2 ^ 53 := by
  simp only [significand, scale, Nat.pow_eq]
  omega

theorem le_significand {x : Binary64} (h : 0 < x.scale) : 2 ^ 52 ≤ x.significand := by
  simp only [significand, scale, Nat.pow_eq] at *
  omega

theorem units_eq (x : Binary64) : x.units = x.significand * 2 ^ x.scale := rfl

theorem isZero_iff {x : Binary64} : x.isZero = true ↔ x.units = 0 := by
  have hMagnitude := x.magnitude_eq
  have hNormal := @le_significand x
  rw [isZero, beq_iff_eq, units_eq, Nat.mul_eq_zero, or_iff_left (by positivity)]
  constructor <;> intro h <;> omega

theorem unitsPerOne_eq : unitsPerOne = 2 ^ 1074 := rfl

theorem unitsPerOne_pos : 0 < unitsPerOne := by
  rw [unitsPerOne_eq]
  positivity

/-! ## The rounding interval -/

/-- What lies in the interval is within half a unit of the last place, and in a tie the significand is
even. Below a power of two it is within a quarter. -/
theorem bounds_of_contains {x : Binary64} {num den : Nat} (h : x.interval.contains num den = true) :
    (4 * (num * unitsPerOne) ≤ (4 * x.significand + 2) * 2 ^ x.scale * den ∧
      (4 * (num * unitsPerOne) = (4 * x.significand + 2) * 2 ^ x.scale * den → x.significand % 2 = 0)) ∧
    (4 * x.significand * 2 ^ x.scale * den ≤ 4 * (num * unitsPerOne) + 2 * 2 ^ x.scale * den ∧
      (4 * x.significand * 2 ^ x.scale * den = 4 * (num * unitsPerOne) + 2 * 2 ^ x.scale * den →
        x.significand % 2 = 0)) ∧
    (x.significand = 2 ^ 52 → 0 < x.scale →
      4 * x.significand * 2 ^ x.scale * den ≤ 4 * (num * unitsPerOne) + 2 ^ x.scale * den) := by
  simp only [RoundingInterval.contains, interval, RoundingInterval.quartersPerOne, units_eq, Nat.pow_eq] at h
  generalize hWidth : 2 ^ x.scale = w at *
  generalize x.significand = m at *
  generalize hGap : (if m = 2 ^ 52 ∧ 0 < x.scale then w else 2 * w) = gap at h
  have hGapLe : gap * den ≤ 2 * w * den := by
    refine Nat.mul_le_mul_right den ?_
    rw [← hGap]
    split <;> omega
  have hGapEq : m = 2 ^ 52 → 0 < x.scale → gap = w := fun hm hs => by rw [← hGap, if_pos ⟨hm, hs⟩]
  have hLowEq : (4 * (m * w) - gap) * den = 4 * m * w * den - gap * den := by
    rw [Nat.sub_mul]
    ring_nf
  have hHighEq : (4 * (m * w) + 2 * w) * den = (4 * m + 2) * w * den := by ring
  have hScaled : num * (4 * unitsPerOne) = 4 * (num * unitsPerOne) := by ring
  rw [hLowEq, hHighEq, hScaled] at h
  generalize num * unitsPerOne = scaled at *
  by_cases hEven : m % 2 = 0
  · simp only [hEven, beq_self_eq_true, if_true, Bool.and_eq_true, decide_eq_true_eq] at h
    refine ⟨⟨h.2, fun _ => hEven⟩, ⟨by omega, fun _ => hEven⟩, fun hm hs => ?_⟩
    rw [hGapEq hm hs] at h
    omega
  · simp only [beq_iff_eq, hEven, if_false, Bool.and_eq_true, decide_eq_true_eq] at h
    refine ⟨⟨by omega, fun hEq => by omega⟩, ⟨by omega, fun hEq => by omega⟩, fun hm hs => ?_⟩
    rw [hGapEq hm hs] at h
    omega

theorem log2_sub_le {n s : Nat} (h : n < 2 ^ (s + 53)) : n.log2 - 52 ≤ s := by
  by_cases hZero : n = 0
  · simp [hZero]
  · have hLog := (Nat.log2_lt hZero).mpr h
    omega

theorem le_log2_sub {n s : Nat} (h : 2 ^ (s + 52) ≤ n) : s ≤ n.log2 - 52 := by
  have hZero : n ≠ 0 := Nat.ne_of_gt (lt_of_lt_of_le (by positivity) h)
  have hLog := (Nat.le_log2 hZero).mpr h
  omega

/-- A quotient in the interval of a finite double is nearest to it. -/
theorem nearestMagnitude_eq {x : Binary64} (hFinite : x.magnitude < infinityBits) {num den : Nat}
    (hDen : 0 < den) (h : x.interval.contains num den = true) : nearestMagnitude num den = x.magnitude := by
  obtain ⟨⟨hHigh, hHighTie⟩, ⟨hLow, hLowTie⟩, hPower⟩ := bounds_of_contains h
  have hSignificand := x.significand_lt
  have hNormal := @le_significand x
  have hMagnitude := x.magnitude_eq
  simp only [nearestMagnitude, Nat.pow_eq]
  generalize num * unitsPerOne = scaled at *
  have hWidth : 0 < 2 ^ x.scale * den := Nat.mul_pos (by positivity) hDen
  have hScale : (scaled / den).log2 - 52 ≤ x.scale := by
    refine log2_sub_le ((Nat.div_lt_iff_lt_mul hDen).mpr ?_)
    rw [pow_add]
    nlinarith
  rcases Nat.lt_or_ge ((scaled / den).log2 - 52) x.scale with hLt | hGe
  · -- The quotient is just below a power of two and rounds up to it.
    have hBelow : scaled < 2 ^ (x.scale + 52) * den := by
      by_contra hNot
      have hLe := le_log2_sub ((Nat.le_div_iff_mul_le hDen).mpr (Nat.le_of_not_lt hNot))
      omega
    have hPos : 0 < x.scale := by omega
    have hLeast : x.significand = 2 ^ 52 := by
      refine Nat.le_antisymm ?_ (hNormal hPos)
      by_contra hMore
      rw [pow_add] at hBelow
      nlinarith
    have hNear := hPower hLeast hPos
    obtain ⟨r, hr⟩ : ∃ r, x.scale = r + 1 := ⟨x.scale - 1, by omega⟩
    rw [hLeast, hr, pow_succ 2 r] at hNear
    rw [hr, Nat.add_right_comm, pow_succ, pow_add] at hBelow
    have hPrevious : (scaled / den).log2 - 52 = r := by
      refine Nat.le_antisymm (by omega) (le_log2_sub ((Nat.le_div_iff_mul_le hDen).mpr ?_))
      have hUnit : 0 < 2 ^ r * den := Nat.mul_pos (by positivity) hDen
      rw [pow_add]
      nlinarith
    have hRound : roundHalfEven scaled (den * 2 ^ r) = 2 ^ 53 := by
      refine roundHalfEven_eq (by positivity) (by linarith) (by linarith) ?_ ?_ <;> intro _ <;> norm_num
    rw [hPrevious, hRound, hMagnitude, hLeast, hr]
    rw [hMagnitude, hLeast, hr] at hFinite
    rw [Nat.min_eq_right]
    · ring
    · omega
  · -- With the scale of `x`, rounding gives its significand.
    have hRound : roundHalfEven scaled (den * 2 ^ x.scale) = x.significand := by
      refine roundHalfEven_eq (by positivity) (by linarith) (by linarith) ?_ ?_
      · intro hTie
        exact hLowTie (by linarith)
      · intro hTie
        exact hHighTie (by linarith)
    rw [Nat.le_antisymm hScale hGe, hRound, ← hMagnitude]
    exact Nat.min_eq_right (Nat.le_of_lt hFinite)

end Binary64

/-! ## Decimals and their spelling -/

namespace Decimal

def value (d : Decimal) : ℚ := d.digits * 10 ^ d.exponent

theorem ratio_snd_pos (d : Decimal) : 0 < d.ratio.2 := by
  rw [ratio]
  split
  · exact Nat.one_pos
  · exact Nat.pow_pos (by decide)

theorem ratio_value (d : Decimal) : (d.ratio.1 : ℚ) / d.ratio.2 = d.value := by
  obtain ⟨digits, exponent⟩ := d
  cases exponent with
  | ofNat e => simp [ratio, value]
  | negSucc e => simp [ratio, value, zpow_negSucc, div_eq_mul_inv]

theorem trimZeros_value (fuel : Nat) (d : Decimal) : (trimZeros fuel d).value = d.value := by
  induction fuel generalizing d with
  | zero => rfl
  | succ fuel ih =>
    rw [trimZeros]
    split
    · rename_i hZero
      have hDigits : (d.digits : ℚ) = (d.digits / 10 : ℕ) * 10 := by
        exact_mod_cast (Nat.div_mul_cancel (Nat.dvd_of_mod_eq_zero hZero.2)).symm
      rw [ih, value, value, hDigits, zpow_add_one₀ (by norm_num)]
      ring
    · rfl

theorem trim_value (d : Decimal) : d.trim.value = d.value := trimZeros_value _ d

/-- The parts of the plain notation are digits, with at least one before the point, and read as the
value of the decimal. -/
theorem plainParts_spec {d : Decimal} {whole fraction : List Char} (h : d.plainParts = (whole, fraction)) :
    whole ≠ [] ∧ (∀ c ∈ whole ++ fraction, c.isDigit = true) ∧
      (Nat.ofDigitChars 10 (whole ++ fraction) 0 : ℚ) / 10 ^ fraction.length = d.value := by
  obtain ⟨digits, exponent⟩ := d
  have hNonempty : Nat.toDigits 10 digits ≠ [] := Nat.toDigits_ne_nil
  have hDigits : ∀ c ∈ Nat.toDigits 10 digits, c.isDigit = true :=
    fun c hc => Nat.isDigit_of_mem_toDigits (by decide) (by decide) hc
  have hZeros : ∀ n, ∀ c ∈ List.replicate n '0', c.isDigit = true := by
    intro n c hc
    rw [List.eq_of_mem_replicate hc]
    rfl
  cases exponent with
  | ofNat e =>
    cases h
    refine ⟨by simp [digitChars], ?_, ?_⟩
    · intro c hc
      rw [List.append_nil] at hc
      exact (List.mem_append.mp hc).elim (hDigits c) (hZeros e c)
    · simp [digitChars, value, Nat.ofDigitChars_append, Nat.ofDigitChars_replicate_zero, mul_comm]
  | negSucc e =>
    have hParts : plainParts ⟨digits, .negSucc e⟩ =
        if e + 1 < (Nat.toDigits 10 digits).length then
          ((Nat.toDigits 10 digits).take ((Nat.toDigits 10 digits).length - (e + 1)),
            (Nat.toDigits 10 digits).drop ((Nat.toDigits 10 digits).length - (e + 1)))
        else (['0'], List.replicate (e + 1 - (Nat.toDigits 10 digits).length) '0' ++ Nat.toDigits 10 digits) := rfl
    rw [hParts] at h
    by_cases hPlaces : e + 1 < (Nat.toDigits 10 digits).length
    · -- The point stands between two digits.
      rw [if_pos hPlaces] at h
      cases h
      rw [List.take_append_drop]
      refine ⟨?_, hDigits, ?_⟩
      · simp only [ne_eq, List.take_eq_nil_iff, not_or]
        exact ⟨by omega, hNonempty⟩
      · have hLength : (Nat.toDigits 10 digits).length - ((Nat.toDigits 10 digits).length - (e + 1)) = e + 1 := by
          omega
        simp [value, hLength, zpow_negSucc, div_eq_mul_inv]
    · rw [if_neg hPlaces] at h
      cases h
      refine ⟨by simp, ?_, ?_⟩
      · intro c hc
        simp only [List.mem_append, List.mem_singleton] at hc
        rcases hc with rfl | hc | hc
        · rfl
        · exact hZeros _ c hc
        · exact hDigits c hc
      · have hLength : e + 1 - (Nat.toDigits 10 digits).length + (Nat.toDigits 10 digits).length = e + 1 := by
          omega
        have hRead : Nat.ofDigitChars 10 (['0'] ++ (List.replicate (e + 1 - (Nat.toDigits 10 digits).length) '0' ++
            Nat.toDigits 10 digits)) 0 = digits := by
          rw [Nat.ofDigitChars_append, Nat.ofDigitChars_append, Nat.ofDigitChars_replicate_zero]
          exact Nat.ofDigitChars_ten_toDigits
        simp only [hRead, List.length_append, List.length_replicate, hLength, value, zpow_negSucc, div_eq_mul_inv]

end Decimal

namespace RoundingInterval

/-- Membership in the interval, said of the exact quotient. -/
theorem contains_iff (i : RoundingInterval) {num den : Nat} (hDen : 0 < den) :
    i.contains num den = true ↔
      if i.closed then (i.low : ℚ) ≤ num / den * quartersPerOne ∧ (num / den * quartersPerOne : ℚ) ≤ i.high
      else (i.low : ℚ) < num / den * quartersPerOne ∧ (num / den * quartersPerOne : ℚ) < i.high := by
  have hDen' : (0 : ℚ) < den := by exact_mod_cast hDen
  simp only [contains, div_mul_eq_mul_div, le_div_iff₀ hDen', div_le_iff₀ hDen', lt_div_iff₀ hDen',
    div_lt_iff₀ hDen']
  norm_cast
  split <;> simp only [Bool.and_eq_true, decide_eq_true_eq]

theorem contains_congr (i : RoundingInterval) {num den num' den' : Nat} (hDen : 0 < den)
    (hDen' : 0 < den') (h : (num : ℚ) / den = num' / den') : i.contains num den = i.contains num' den' := by
  rw [Bool.eq_iff_iff, i.contains_iff hDen, i.contains_iff hDen', h]

theorem contains_of_candidate? {i : RoundingInterval} {tie : TieRule} {exponent : Int} {d : Decimal}
    (h : i.candidate? tie exponent = some d) : i.contains d.ratio.1 d.ratio.2 = true := by
  simp only [candidate?] at h
  split at h
  · cases h
  · rename_i hBelow hAbove
    cases h
    exact hBelow
  · rename_i hBelow hAbove
    cases h
    exact hAbove
  · rename_i hBelow hAbove
    cases h
    split
    · exact hAbove
    · exact hBelow

end RoundingInterval

namespace Binary64

theorem exactDecimal_value (x : Binary64) : x.exactDecimal.value = x.units / unitsPerOne := by
  have hPower : ∀ u k : ℕ, ((u * 5 ^ k : ℕ) : ℚ) * 10 ^ (-(k : ℤ)) = u / (2 ^ k : ℕ) := by
    intro u k
    have hTen : (10 : ℚ) ^ k = 2 ^ k * 5 ^ k := by rw [← mul_pow]; norm_num
    rw [zpow_neg, zpow_natCast, hTen]
    push_cast
    field_simp
  exact hPower x.units 1074

theorem contains_exactDecimal {x : Binary64} (hPos : 0 < x.units) :
    x.interval.contains x.exactDecimal.ratio.1 x.exactDecimal.ratio.2 = true := by
  have hValue : (x.exactDecimal.ratio.1 : ℚ) / x.exactDecimal.ratio.2 = x.units / unitsPerOne := by
    rw [Decimal.ratio_value, exactDecimal_value]
  rw [x.interval.contains_congr x.exactDecimal.ratio_snd_pos unitsPerOne_pos hValue]
  have hWidth : 0 < 2 ^ x.scale := by positivity
  simp only [RoundingInterval.contains, interval, RoundingInterval.quartersPerOne, Nat.pow_eq]
  generalize hGap : (if x.significand = 2 ^ 52 ∧ 0 < x.scale then 2 ^ x.scale else 2 * 2 ^ x.scale) = gap
  have hGapPos : 0 < gap := by
    rw [← hGap]
    split <;> omega
  have hOne := unitsPerOne_pos
  have hScaled : x.units * (4 * unitsPerOne) = 4 * x.units * unitsPerOne := by ring
  have hLow : (4 * x.units - gap) * unitsPerOne < 4 * x.units * unitsPerOne :=
    Nat.mul_lt_mul_of_pos_right (by omega) hOne
  have hHigh : 4 * x.units * unitsPerOne < (4 * x.units + 2 * 2 ^ x.scale) * unitsPerOne :=
    Nat.mul_lt_mul_of_pos_right (by omega) hOne
  rw [hScaled]
  split
  · simp only [Bool.and_eq_true, decide_eq_true_eq]
    exact ⟨Nat.le_of_lt hLow, Nat.le_of_lt hHigh⟩
  · simp only [Bool.and_eq_true, decide_eq_true_eq]
    exact ⟨hLow, hHigh⟩

theorem contains_zero {x : Binary64} (h : x.isZero = true) : x.interval.contains 0 1 = true := by
  have hSignificand : x.significand = 0 := by
    have hMagnitude := x.magnitude_eq
    have hZero : x.magnitude = 0 := by simpa [isZero] using h
    omega
  simp [RoundingInterval.contains, interval, hSignificand, isZero_iff.mp h]

theorem contains_shortest (x : Binary64) (tie : TieRule) :
    x.interval.contains (x.shortest tie).ratio.1 (x.shortest tie).ratio.2 = true := by
  by_cases hZero : x.isZero = true
  · rw [shortest, if_pos hZero]
    exact contains_zero hZero
  · rw [shortest, if_neg hZero]
    dsimp only
    generalize hFound : (List.map _ _).findSome? _ = found
    have hValue : ∀ d : Decimal, (d.trim.ratio.1 : ℚ) / d.trim.ratio.2 = d.ratio.1 / d.ratio.2 := fun d => by
      rw [Decimal.ratio_value, Decimal.ratio_value, Decimal.trim_value]
    rw [x.interval.contains_congr (Decimal.ratio_snd_pos _) (Decimal.ratio_snd_pos _) (hValue _)]
    cases found with
    | none => exact contains_exactDecimal (Nat.pos_of_ne_zero fun hUnits => hZero (isZero_iff.mpr hUnits))
    | some d =>
      obtain ⟨exponent, _, hCandidate⟩ := List.exists_of_findSome?_eq_some hFound
      exact RoundingInterval.contains_of_candidate? hCandidate

/-- The digits of a finite double are nearest to it. -/
theorem nearestMagnitude_shortest {x : Binary64} (hFinite : x.magnitude < infinityBits) (tie : TieRule)
    {num den : Nat} (hDen : 0 < den) (h : (num : ℚ) / den = (x.shortest tie).value) :
    nearestMagnitude num den = x.magnitude := by
  refine nearestMagnitude_eq hFinite hDen ?_
  rw [x.interval.contains_congr hDen (Decimal.ratio_snd_pos _) (h.trans (Decimal.ratio_value _).symm)]
  exact contains_shortest x tie

theorem literal_of_finite {x : Binary64} (hFinite : x.magnitude < infinityBits) :
    x.literal = (if x.negative then "-" else "") ++ String.ofList (x.shortest .up).plain := by
  have hNotNaN : x.isNaN = false := by simpa [isNaN] using hFinite.le
  have hNotInfinite : x.isInfinite = false := by simpa [isInfinite] using hFinite.ne
  simp [literal, hNotNaN, hNotInfinite]

theorem magnitude_ofMagnitude (negative : Bool) {m : Nat} (h : m < 2 ^ 63) :
    (ofMagnitude negative m).magnitude = m := by
  have hBits : (if negative then Nat.pow 2 63 + m else m) < 2 ^ 64 := by
    rw [Nat.pow_eq]
    split <;> omega
  simp only [ofMagnitude, magnitude, UInt64.toNat_ofNat_of_lt' hBits, Nat.pow_eq]
  split <;> omega

theorem units_congr {x y : Binary64} (h : x.magnitude = y.magnitude) : x.units = y.units := by
  simp only [units, significand, scale, h]

end Binary64
end TreeLowering

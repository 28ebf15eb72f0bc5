import TreeLowering.Proofs.Json.Numeral
import TreeLowering.Proofs.Number.Nearest

/-! # The value of a number literal

The text of a finite double is a numeral without an exponent. The exact value of this numeral rounds to the
double and, with its sign, to no other. So the text tells the double, the sign of zero included. -/
namespace TreeLowering
set_option autoImplicit false

namespace Numeral

def powerOfTen (n : Numeral) : ℤ :=
  n.exponent.elim 0 fun e => if e.1 then -(Nat.ofDigitChars 10 e.2 0 : ℤ) else Nat.ofDigitChars 10 e.2 0

/-- The exact value: the digits as one number, moved by as many places as stand behind the point and by the
written exponent. -/
def value (n : Numeral) : ℚ :=
  signed n.negative (Nat.ofDigitChars 10 (n.whole ++ n.fraction) 0 * 10 ^ (n.powerOfTen - n.fraction.length))

/-- The value rounds to the double, which has the sign of the numeral also when it is zero. -/
def ReadsAs (n : Numeral) (x : Binary64) : Prop := x.negative = n.negative ∧ Binary64.Rounds n.value x

theorem ReadsAs.eq {n : Numeral} {x y : Binary64} (hx : n.ReadsAs x) (hy : n.ReadsAs y) : x = y :=
  hx.2.eq hy.2 (hx.1.trans hy.1.symm)

theorem Valid.read?_eq {n : Numeral} (h : n.Valid) : read? n.render = some (n, []) := by
  have hEnds : Ends [] := fun c hc => by cases hc
  simpa using read?_render h hEnds

theorem Valid.render_inj {m n : Numeral} (hm : m.Valid) (hn : n.Valid) (h : m.render = n.render) : m = n := by
  have hRead := hm.read?_eq
  rw [h, hn.read?_eq] at hRead
  exact (Prod.mk.inj (Option.some.inj hRead)).1.symm

end Numeral

namespace Binary64

/-- The numeral that the literal of a finite double is. -/
def numeral (x : Binary64) : Numeral :=
  ⟨x.negative, (x.shortest .up).plainParts.1, (x.shortest .up).plainParts.2, none⟩

section
variable {x : Binary64}

theorem toList_literal (hFinite : x.magnitude < infinityBits) : x.literal.toList = x.numeral.render := by
  rcases hParts : (x.shortest .up).plainParts with ⟨whole, fraction⟩
  have hPlain : (x.shortest .up).plain = whole ++ Numeral.fractionText fraction := by
    cases fraction <;> simp [Decimal.plain, hParts, Numeral.fractionText]
  rw [Numeral.render_eq, literal_of_finite hFinite]
  cases hSign : x.negative <;> simp [numeral, hSign, hPlain, hParts, Numeral.exponentText]

theorem valid_numeral (x : Binary64) : x.numeral.Valid := by
  obtain ⟨-, hDigits, -⟩ := Decimal.plainParts_spec (d := x.shortest .up) Prod.mk.eta.symm
  rw [List.forall_mem_append] at hDigits
  refine ⟨?_, hDigits.1, hDigits.2, fun _ _ h => by cases h⟩
  by_cases hZero : x.isZero = true
  · simp [numeral, shortest, hZero, Decimal.plainParts, Decimal.digitChars, Numeral.validWhole]
  · exact Numeral.validWhole_plainParts (Numeral.digits_shortest_ne_zero (by simpa using hZero) .up)

theorem value_numeral (x : Binary64) :
    x.numeral.value = signed x.negative ((x.shortest .up).ratio.1 / (x.shortest .up).ratio.2) := by
  obtain ⟨-, -, hValue⟩ := Decimal.plainParts_spec (d := x.shortest .up) Prod.mk.eta.symm
  rw [Decimal.ratio_value, ← hValue, Numeral.value]
  simp [numeral, Numeral.powerOfTen, zpow_neg, div_eq_mul_inv]

theorem readsAs_numeral (hFinite : x.magnitude < infinityBits) : x.numeral.ReadsAs x := by
  refine ⟨rfl, ?_⟩
  rw [value_numeral]
  exact rounds_of_contains hFinite (Decimal.ratio_snd_pos _) (contains_shortest x .up)

theorem literal_of_infinite (h : x.isInfinite = true) :
    x.literal = (if x.negative then "-" else "") ++ "Infinity" := by
  have hMagnitude : x.magnitude = infinityBits := by simpa [isInfinite] using h
  simp [literal, isNaN, hMagnitude, h]

theorem literal_ne_of_infinite {y : Binary64} (hx : x.magnitude < infinityBits) (hy : y.isInfinite = true) :
    x.literal ≠ y.literal := by
  intro h
  have hRead := x.valid_numeral.read?_eq
  rw [← toList_literal hx, h, literal_of_infinite hy] at hRead
  -- The word for infinity is no numeral, with or without a sign.
  have hNone : ∀ negative : Bool, Numeral.read? ((if negative then "-" else "") ++ "Infinity").toList = none := by
    decide
  rw [hNone] at hRead
  cases hRead

theorem finite_or_infinite (h : x.isNaN = false) : x.magnitude < infinityBits ∨ x.isInfinite = true := by
  have hLe : x.magnitude ≤ infinityBits := by simpa [isNaN] using h
  rcases hLe.lt_or_eq with hLess | hEqual
  · exact .inl hLess
  · exact .inr (by simpa [isInfinite] using hEqual)

end

theorem literal_inj {x y : Binary64} (hx : x.isNaN = false) (hy : y.isNaN = false) (h : x.literal = y.literal) :
    x = y := by
  rcases finite_or_infinite hx with hxFinite | hxInfinite <;>
    rcases finite_or_infinite hy with hyFinite | hyInfinite
  · have hRender : x.numeral.render = y.numeral.render := by
      rw [← toList_literal hxFinite, ← toList_literal hyFinite, h]
    have hNumeral := x.valid_numeral.render_inj y.valid_numeral hRender
    exact (hNumeral ▸ readsAs_numeral hxFinite).eq (readsAs_numeral hyFinite)
  · exact absurd h (literal_ne_of_infinite hxFinite hyInfinite)
  · exact absurd h.symm (literal_ne_of_infinite hyFinite hxInfinite)
  · rw [literal_of_infinite hxInfinite, literal_of_infinite hyInfinite] at h
    refine eq_of_magnitude_eq ?_ ?_
    · revert h
      cases x.negative <;> cases y.negative <;> decide
    · simp only [isInfinite, beq_iff_eq] at hxInfinite hyInfinite
      rw [hxInfinite, hyInfinite]

/-- The literal of a finite double is a numeral without an exponent: a minus sign or none, digits, and possibly
a point and more digits. The exact value of this numeral rounds to the nearest double, a tie going to the even
one, and with the sign of the numeral this is the printed double and no other. So different doubles that are
numbers have different literals. -/
theorem literals_keep_values :
    (∀ x : Binary64, x.magnitude < infinityBits →
      ∃ n : Numeral, n.Valid ∧ n.exponent = none ∧ x.literal.toList = n.render ∧
        ∀ y : Binary64, n.ReadsAs y ↔ y = x) ∧
      ∀ x y : Binary64, x.isNaN = false → y.isNaN = false → x ≠ y → x.literal ≠ y.literal := by
  constructor
  · intro x hFinite
    refine ⟨x.numeral, x.valid_numeral, rfl, toList_literal hFinite, fun y => ⟨?_, ?_⟩⟩
    · intro hy
      exact hy.eq (readsAs_numeral hFinite)
    · rintro rfl
      exact readsAs_numeral hFinite
  · intro x y hx hy hNe h
    exact hNe (literal_inj hx hy h)

/-- The least positive double, and the two zeros. -/
theorem literals_keep_values_of_least_and_zeros :
    ((⟨1⟩ : Binary64).magnitude < infinityBits ∧
      ∃ n : Numeral, n.Valid ∧ n.exponent = none ∧ (⟨1⟩ : Binary64).literal.toList = n.render ∧
        ∀ y : Binary64, n.ReadsAs y ↔ y = ⟨1⟩) ∧
      (zero false).isNaN = false ∧ (zero true).isNaN = false ∧ zero false ≠ zero true ∧
      (zero false).literal ≠ (zero true).literal :=
  ⟨⟨by decide, literals_keep_values.1 ⟨1⟩ (by decide)⟩, by decide, by decide, by decide,
    literals_keep_values.2 (zero false) (zero true) (by decide) (by decide) (by decide)⟩

end Binary64
end TreeLowering

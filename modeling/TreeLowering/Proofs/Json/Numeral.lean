import TreeLowering.Json.Numeral
import TreeLowering.Proofs.Number.ReadBack

/-! # Number literals in JSON text

A literal is read up to its last character as long as the text behind it does not go on with a number.
Natural numbers below the limit come back as themselves. -/
namespace TreeLowering
set_option autoImplicit false

theorem exists_toDigits_eq_cons {n : Nat} (h : n ≠ 0) : ∃ c ds, Nat.toDigits 10 n = c :: ds ∧ c ≠ '0' := by
  induction n using Nat.strongRecOn with
  | ind n ih =>
    by_cases hSmall : n < 10
    · refine ⟨n.digitChar, [], Nat.toDigits_of_lt_base hSmall, ?_⟩
      have hAll : ∀ m < 10, m ≠ 0 → m.digitChar ≠ '0' := by decide
      exact hAll n hSmall h
    · obtain ⟨c, ds, hDigits, hc⟩ := ih (n / 10) (by omega) (by omega)
      refine ⟨c, ds ++ [(n % 10).digitChar], ?_, hc⟩
      rw [Nat.toDigits_of_base_le (by omega) (by omega), hDigits, List.cons_append]

namespace Numeral

/-- The literal has digits wherever digits are due, and no leading zeros. -/
structure Valid (n : Numeral) : Prop where
  whole : validWhole n.whole = true
  wholeDigits : ∀ c ∈ n.whole, c.isDigit = true
  fractionDigits : ∀ c ∈ n.fraction, c.isDigit = true
  exponent : ∀ negative ds, n.exponent = some (negative, ds) → ds ≠ [] ∧ ∀ c ∈ ds, c.isDigit = true

/-- No number goes on into the text. -/
def Ends (rest : List Char) : Prop :=
  ∀ c ∈ rest.head?, c.isDigit = false ∧ c ≠ '.' ∧ c ≠ 'e' ∧ c ≠ 'E'

/-! ## Reading -/

theorem digits_append {ds rest : List Char} (hDigits : ∀ c ∈ ds, c.isDigit = true)
    (hRest : ∀ c ∈ rest.head?, c.isDigit = false) : digits (ds ++ rest) = (ds, rest) := by
  rw [digits, List.takeWhile_append_of_pos hDigits, List.dropWhile_append_of_pos hDigits]
  cases rest with
  | nil => simp
  | cons c rest => simp [hRest c rfl]

def fractionText (fraction : List Char) : List Char := if fraction.isEmpty then [] else '.' :: fraction

def exponentText : Option (Bool × List Char) → List Char
  | none => []
  | some (negative, ds) => 'e' :: (if negative then '-' else '+') :: ds

theorem readFraction?_append {fraction rest : List Char} (hDigits : ∀ c ∈ fraction, c.isDigit = true)
    (hRest : ∀ c ∈ rest.head?, c.isDigit = false ∧ c ≠ '.') :
    readFraction? (fractionText fraction ++ rest) = some (fraction, rest) := by
  cases fraction with
  | nil =>
    cases rest with
    | nil => rfl
    | cons c rest =>
      have hPoint : c ≠ '.' := (hRest c rfl).2
      simp [fractionText, readFraction?, hPoint]
  | cons d ds =>
    have hSplit := digits_append hDigits fun c hc => (hRest c hc).1
    simp only [fractionText, List.isEmpty_cons, Bool.false_eq_true, if_false, List.cons_append, readFraction?]
    rw [← List.cons_append, hSplit]

theorem readExponent?_append {exponent : Option (Bool × List Char)} {rest : List Char}
    (hExponent : ∀ negative ds, exponent = some (negative, ds) → ds ≠ [] ∧ ∀ c ∈ ds, c.isDigit = true)
    (hRest : Ends rest) : readExponent? (exponentText exponent ++ rest) = some (exponent, rest) := by
  cases exponent with
  | none =>
    cases rest with
    | nil => rfl
    | cons c rest =>
      obtain ⟨_, _, he, hE⟩ := hRest c rfl
      simp [exponentText, readExponent?, he, hE]
  | some e =>
    obtain ⟨negative, ds⟩ := e
    obtain ⟨hNonempty, hDigits⟩ := hExponent negative ds rfl
    have hSplit := digits_append hDigits fun c hc => (hRest c hc).1
    obtain ⟨d, ds, rfl⟩ := List.exists_cons_of_ne_nil hNonempty
    have hSign : readSign ((if negative then '-' else '+') :: (d :: ds ++ rest)) = (negative, d :: ds ++ rest) := by
      cases negative <;> rfl
    rw [exponentText, List.cons_append, List.cons_append, readExponent?, if_pos (.inl rfl), hSign, hSplit]

theorem render_eq (n : Numeral) : n.render =
    (if n.negative then ['-'] else []) ++ (n.whole ++ (fractionText n.fraction ++ exponentText n.exponent)) := by
  obtain ⟨negative, whole, fraction, exponent⟩ := n
  cases exponent <;> simp [render, fractionText, exponentText, List.append_assoc]

theorem Valid.exists_render {n : Numeral} (h : n.Valid) :
    ∃ c cs, n.render = c :: cs ∧ (c = '-' ∨ c.isDigit = true) := by
  obtain ⟨c, ds, hWhole⟩ : ∃ c ds, n.whole = c :: ds := by
    have hValid := h.whole
    cases hWhole : n.whole with
    | nil =>
      rw [hWhole] at hValid
      cases hValid
    | cons c ds => exact ⟨c, ds, rfl⟩
  have hDigit : c.isDigit = true := h.wholeDigits c (hWhole ▸ List.mem_cons_self)
  rw [render_eq, hWhole]
  cases n.negative with
  | true => exact ⟨_, _, rfl, .inl rfl⟩
  | false => exact ⟨_, _, rfl, .inr hDigit⟩

theorem head?_exponentText (exponent : Option (Bool × List Char)) {rest : List Char} (hRest : Ends rest) :
    ∀ c ∈ (exponentText exponent ++ rest).head?, c.isDigit = false ∧ c ≠ '.' := by
  cases exponent with
  | none => exact fun c hc => ⟨(hRest c hc).1, (hRest c hc).2.1⟩
  | some e =>
    rintro c ⟨⟩
    decide

theorem head?_fractionText (fraction : List Char) {rest : List Char}
    (hRest : ∀ c ∈ rest.head?, c.isDigit = false ∧ c ≠ '.') :
    ∀ c ∈ (fractionText fraction ++ rest).head?, c.isDigit = false := by
  cases fraction with
  | nil => exact fun c hc => (hRest c hc).1
  | cons d ds =>
    rintro c ⟨⟩
    rfl

/-- A valid literal is read back, and what is behind it is left. -/
theorem read?_render {n : Numeral} (h : n.Valid) {rest : List Char} (hRest : Ends rest) :
    read? (n.render ++ rest) = some (n, rest) := by
  have hExponent := readExponent?_append h.exponent hRest
  have hAfter := head?_exponentText n.exponent hRest
  have hFraction := readFraction?_append h.fractionDigits hAfter
  have hWhole := digits_append h.wholeDigits (head?_fractionText n.fraction hAfter)
  have hValid := h.whole
  obtain ⟨negative, whole, fraction, exponent⟩ := n
  rw [render_eq]
  cases negative with
  | true =>
    simp only [if_true, List.cons_append, List.nil_append, List.append_assoc, read?, hWhole, hValid, hFraction,
      hExponent, bind, Option.bind, pure]
  | false =>
    -- The first character is a digit, so it is not taken for a sign.
    obtain ⟨c, ds, rfl⟩ : ∃ c ds, whole = c :: ds := by
      cases whole with
      | nil => cases hValid
      | cons c ds => exact ⟨c, ds, rfl⟩
    have hSign : c ≠ '-' := by
      rintro rfl
      exact absurd (h.wholeDigits _ List.mem_cons_self) (by decide)
    simp only [Bool.false_eq_true, if_false, List.nil_append, List.append_assoc, List.cons_append] at hWhole ⊢
    simp [read?, hSign, hWhole, hValid, hFraction, hExponent]

/-! ## Natural numbers -/

theorem collect_fst_lt {significand : Nat} (h : significand < significandLimit) (ds : List Char) :
    (collect significand ds).1 < significandLimit := by
  induction ds generalizing significand with
  | nil => exact h
  | cons c ds ih =>
    rw [collect]
    split
    · rename_i hNext
      exact ih hNext
    · exact h

theorem le_ofDigitChars (ds : List Char) (value : Nat) : value ≤ Nat.ofDigitChars 10 ds value := by
  induction ds generalizing value with
  | nil => exact Nat.le_refl value
  | cons c ds ih =>
    rw [Nat.ofDigitChars_cons]
    exact Nat.le_trans (by omega) (ih _)

theorem collect_eq {significand : Nat} {ds : List Char} (h : Nat.ofDigitChars 10 ds significand < significandLimit) :
    collect significand ds = (Nat.ofDigitChars 10 ds significand, []) := by
  induction ds generalizing significand with
  | nil => rfl
  | cons c ds ih =>
    rw [Nat.ofDigitChars_cons, Nat.mul_comm 10] at h ⊢
    have hNext : significand * 10 + digitValue c < significandLimit := (le_ofDigitChars ds _).trans_lt h
    rw [collect, if_pos hNext]
    exact ih h

theorem natural?_lt {n : Numeral} {v : Nat} (h : n.natural? = some v) : v < significandLimit := by
  have hLt := collect_fst_lt (by decide : 0 < significandLimit) n.whole
  rw [natural?] at h
  split at h
  · cases h
  · split at h
    · rename_i hCollect
      cases h
      rwa [hCollect] at hLt
    · cases h

theorem collect_toDigits {v : Nat} (h : v < significandLimit) : collect 0 (Nat.toDigits 10 v) = (v, []) := by
  have hRead := @Nat.ofDigitChars_ten_toDigits v
  rw [collect_eq (hRead.symm ▸ h), hRead]

theorem natural?_ofNat {v : Nat} (h : v < significandLimit) : (ofNat v).natural? = some v := by
  simp [natural?, ofNat, collect_toDigits h]

theorem isSome_value?_ofNat {v : Nat} (h : v < significandLimit) : (ofNat v).value?.isSome = true := by
  simp [value?, scaled, ofNat, collect_toDigits h, collect]

theorem validWhole_cons {c : Char} (h : c ≠ '0') (ds : List Char) : validWhole (c :: ds) = true := by
  cases ds <;> simp [validWhole, h]

theorem validWhole_toDigits (n : Nat) : validWhole (Nat.toDigits 10 n) = true := by
  by_cases hZero : n = 0
  · subst hZero
    rfl
  · obtain ⟨c, ds, hDigits, hc⟩ := exists_toDigits_eq_cons hZero
    rw [hDigits]
    exact validWhole_cons hc ds

theorem valid_ofNat (n : Nat) : (ofNat n).Valid where
  whole := validWhole_toDigits n
  wholeDigits _ hc := Nat.isDigit_of_mem_toDigits (by decide) (by decide) hc
  fractionDigits _ hc := by cases hc
  exponent _ _ h := by cases h

/-! ## Doubles -/

theorem validWhole_plainParts {d : Decimal} (h : d.digits ≠ 0) : validWhole d.plainParts.1 = true := by
  obtain ⟨digits, exponent⟩ := d
  obtain ⟨c, ds, hDigits, hc⟩ := exists_toDigits_eq_cons h
  cases exponent with
  | ofNat e =>
    simp only [Decimal.plainParts, Decimal.digitChars, hDigits, List.cons_append]
    exact validWhole_cons hc _
  | negSucc e =>
    simp only [Decimal.plainParts, Decimal.digitChars, hDigits]
    split
    · rename_i hPlaces
      obtain ⟨k, hk⟩ : ∃ k, (c :: ds).length - (e + 1) = k + 1 := ⟨(c :: ds).length - (e + 1) - 1, by omega⟩
      rw [hk, List.take_succ_cons]
      exact validWhole_cons hc _
    · rfl

theorem digits_shortest_ne_zero {x : Binary64} (h : x.isZero = false) (tie : TieRule) :
    (x.shortest tie).digits ≠ 0 := by
  intro hDigits
  have hSignificand : 0 < x.significand := by
    have hMagnitude := x.magnitude_eq
    have hNormal := @Binary64.le_significand x
    have hNonzero : x.magnitude ≠ 0 := by simpa [Binary64.isZero] using h
    omega
  have hNumerator : (x.shortest tie).ratio.1 = 0 := by
    rw [Decimal.ratio]
    split <;> simp [hDigits]
  -- Zero is further from the double than its significand times its unit.
  obtain ⟨_, ⟨hLow, _⟩, _⟩ := Binary64.bounds_of_contains (Binary64.contains_shortest x tie)
  have hWidth : 0 < 2 ^ x.scale * (x.shortest tie).ratio.2 :=
    Nat.mul_pos (Nat.pow_pos (by decide)) (Decimal.ratio_snd_pos _)
  rw [hNumerator, Nat.zero_mul, Nat.mul_zero, Nat.zero_add, Nat.mul_assoc, Nat.mul_assoc 2] at hLow
  have hSmall : 4 * x.significand ≤ 2 := Nat.le_of_mul_le_mul_right hLow hWidth
  omega

theorem valid_ofBinary64 (x : Binary64) : (ofBinary64 x).Valid := by
  simp only [ofBinary64]
  by_cases hZero : x.isZero = true
  · rw [if_pos hZero]
    exact ⟨rfl, by simp, by simp, fun _ _ h => by cases h⟩
  · have hDigits := digits_shortest_ne_zero (by simpa using hZero) .even
    have hWhole := validWhole_plainParts hDigits
    rw [if_neg hZero]
    split
    · split
      · rename_i whole hParts
        obtain ⟨_, hAll, _⟩ := Decimal.plainParts_spec hParts
        rw [hParts] at hWhole
        rw [List.append_nil] at hAll
        exact ⟨hWhole, hAll, by simp, fun _ _ h => by cases h⟩
      · rename_i whole fraction _ hParts
        obtain ⟨_, hAll, _⟩ := Decimal.plainParts_spec hParts
        rw [hParts] at hWhole
        rw [List.forall_mem_append] at hAll
        exact ⟨hWhole, hAll.1, hAll.2, fun _ _ h => by cases h⟩
    · obtain ⟨c, ds, hChars, hc⟩ := exists_toDigits_eq_cons hDigits
      have hAll : ∀ d ∈ c :: ds, d.isDigit = true := fun d hd =>
        Nat.isDigit_of_mem_toDigits (by decide) (by decide) (hChars ▸ hd)
      rw [List.forall_mem_cons] at hAll
      simp only [Decimal.digitChars, hChars]
      refine ⟨validWhole_cons hc [], by simpa using hAll.1, hAll.2, ?_⟩
      rintro negative es ⟨⟩
      exact ⟨Nat.toDigits_ne_nil, fun d hd => Nat.isDigit_of_mem_toDigits (by decide) (by decide) hd⟩

end Numeral
end TreeLowering

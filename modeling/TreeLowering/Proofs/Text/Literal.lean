import Mathlib.Tactic.SplitIfs
import TreeLowering.Text.Quoted

/-! # Quoted literals read back

A written character is read as one piece, and the pieces of a text are joined to it again. No written
character is an escaped surrogate. -/
namespace TreeLowering.Quoted
set_option autoImplicit false

/-! ## Written characters -/

theorem hexDigit_plain {n : Nat} (h : n < 16) :
    32 ≤ (hexDigit n).toNat ∧ hexDigit n ≠ '\\' ∧ hexDigit n ≠ '"' ∧ hexDigit n ≠ 'u' := by
  have hAll : ∀ m < 16, 32 ≤ (hexDigit m).toNat ∧ hexDigit m ≠ '\\' ∧
    hexDigit m ≠ '"' ∧ hexDigit m ≠ 'u' := by
    decide
  exact hAll n h

/-- How a character is written: after a backslash, as four digits after `\u`, or as it is. -/
theorem encodeChar_cases (c : Char) :
    (∃ e, shortEscape? c = some e ∧ encodeChar c = ['\\', e]) ∨
      (∃ a b, a < 16 ∧ b < 16 ∧ encodeChar c = ['\\', 'u', '0', '0', hexDigit a, hexDigit b]) ∨
      32 ≤ c.toNat ∧ c ≠ '\\' ∧ c ≠ '"' ∧ encodeChar c = [c] := by
  rw [encodeChar]
  cases hShort : shortEscape? c with
  | some e => exact .inl ⟨e, rfl, rfl⟩
  | none =>
    by_cases hControl : c.toNat < 32
    · exact .inr (.inl ⟨_, _, by omega, by omega, if_pos hControl⟩)
    · refine .inr (.inr ⟨by omega, ?_, ?_, if_neg hControl⟩)
      · rintro rfl
        cases hShort
      · rintro rfl
        cases hShort

theorem encode_cons (c : Char) (cs : List Char) : encode (c :: cs) = encodeChar c ++ encode cs := List.flatMap_cons

theorem toList_quote (s : String) : (quote s).toList = '"' :: (encode s.toList ++ ['"']) := String.toList_ofList

/-! ## Read characters -/

/-- The piece that a written character is read as. -/
def piece (c : Char) : Piece := if shortEscape? c = none ∧ c.toNat < 32 then .unit c.toNat else .char c

theorem unitOfHex?_eq {n : Nat} (h : n < 32) :
    unitOfHex? '0' '0' (hexDigit (n / 16)) (hexDigit (n % 16)) = some n := by
  have hAll : ∀ m < 32, unitOfHex? '0' '0' (hexDigit (m / 16)) (hexDigit (m % 16)) = some m := by decide
  exact hAll n h

theorem unescape?_of_shortEscape? {c e : Char} (h : shortEscape? c = some e) : e ≠ 'u' ∧ unescape? e = some c := by
  rw [shortEscape?] at h
  split_ifs at h <;> cases h <;> subst c <;> exact ⟨by decide, rfl⟩

theorem readPieces?_short {c e : Char} (h : shortEscape? c = some e) (rest : List Char) :
    readPieces? ('\\' :: e :: rest) = (readPieces? rest).map (Prod.map (.char c :: ·) id) := by
  obtain ⟨hUnit, hChar⟩ := unescape?_of_shortEscape? h
  rw [readPieces?]
  · rw [hChar]
    cases readPieces? rest <;> rfl
  · rintro a b c d rest rfl
    exact absurd rfl hUnit

theorem readPieces?_plain {c : Char} (hShort : shortEscape? c = none) (hPrintable : ¬c.toNat < 32)
    (rest : List Char) : readPieces? (c :: rest) = (readPieces? rest).map (Prod.map (.char c :: ·) id) := by
  have hQuote : c ≠ '"' := by
    rintro rfl
    cases hShort
  have hSlash : c ≠ '\\' := by
    rintro rfl
    cases hShort
  rw [readPieces?]
  · rw [if_neg (not_or.mpr ⟨hSlash, hPrintable⟩)]
    cases readPieces? rest <;> rfl
  · exact hQuote
  · intro a b c d rest h
    exact absurd h hSlash
  · intro e rest h
    exact absurd h hSlash

theorem readPieces?_encodeChar (c : Char) (rest : List Char) : readPieces? (encodeChar c ++ rest) =
    (readPieces? rest).map (Prod.map (piece c :: ·) id) := by
  cases hShort : shortEscape? c with
  | some e =>
    have hPiece : piece c = .char c := by simp [piece, hShort]
    rw [encodeChar, hShort, hPiece]
    exact readPieces?_short hShort rest
  | none =>
    by_cases hControl : c.toNat < 32
    · have hPiece : piece c = .unit c.toNat := if_pos ⟨hShort, hControl⟩
      rw [encodeChar, hShort, hPiece]
      simp only [if_pos hControl, List.cons_append, List.nil_append, readPieces?, unitOfHex?_eq hControl]
      cases readPieces? rest <;> rfl
    · have hPiece : piece c = .char c := if_neg fun h => hControl h.2
      rw [encodeChar, hShort, hPiece]
      simp only [if_neg hControl, List.cons_append, List.nil_append]
      exact readPieces?_plain hShort hControl rest

theorem readPieces?_encode (cs rest : List Char) :
    readPieces? (encode cs ++ '"' :: rest) = some (cs.map piece, rest) := by
  induction cs with
  | nil => rfl
  | cons c cs ih =>
    rw [encode_cons, List.append_assoc, readPieces?_encodeChar, ih]
    rfl

theorem join?_unit {n : Nat} (h : n < 32) (pieces : List Piece) :
    join? (.unit n :: pieces) = (join? pieces).map (Char.ofNat n :: ·) := by
  have hHigh : isHighSurrogate n = false := by simp [isHighSurrogate]; omega
  have hLow : isLowSurrogate n = false := by simp [isLowSurrogate]; omega
  cases pieces with
  | nil => simp [join?, hHigh, hLow]
  | cons p pieces =>
    cases p with
    | char c => simp [join?, hHigh, hLow]
    | unit m => simp [join?, hHigh, hLow]

theorem join?_map_piece (cs : List Char) : join? (cs.map piece) = some cs := by
  induction cs with
  | nil => rfl
  | cons c cs ih =>
    rw [List.map_cons, piece]
    split
    · rename_i hControl
      rw [join?_unit hControl.2, ih, Option.map_some, Char.ofNat_toNat]
    · rw [join?, ih, Option.map_some]

/-- Whatever follows a literal, it is read up to its closing quote and stands for its text. -/
theorem read?_encode (s : String) (rest : List Char) :
    read? (encode s.toList ++ '"' :: rest) = some (some s, rest) := by
  rw [read?, readPieces?_encode, Option.map_some]
  simp only [join?_map_piece, Option.map_some, String.ofList_toList]

end TreeLowering.Quoted

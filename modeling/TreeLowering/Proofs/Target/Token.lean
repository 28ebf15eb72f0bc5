import Mathlib.Data.List.TakeWhile
import TreeLowering.Proofs.Number.ReadBack

/-! # Tokens of emitted expressions

Names, numbers and marks of the arithmetic part of the target language. A number stands for the double
that its digits are nearest to; of the marks the longest one is taken. -/
namespace TreeLowering.Target
set_option autoImplicit false

/-- Character classes that names and blanks are told by; on ASCII characters they are fixed. -/
structure Alphabet where
  blank : Char → Bool
  letter : Char → Bool
  numeric : Char → Bool
  blank_ascii : ∀ c, c.toNat < 128 → blank c = [' ', '\t', '\n', '\x0b', '\x0c', '\r'].contains c
  letter_ascii : ∀ c, c.toNat < 128 → letter c = c.isAlpha
  numeric_ascii : ∀ c, c.toNat < 128 → numeric c = c.isDigit
  blank_letter : ∀ c, letter c = true → blank c = false

namespace Alphabet

def starts (a : Alphabet) (c : Char) : Bool := a.letter c || c == '_' || c == '$'

def continues (a : Alphabet) (c : Char) : Bool := a.letter c || a.numeric c || c == '_' || c == '$'

/-- The text is one name. -/
def IsName (a : Alphabet) (text : String) : Prop :=
  ∃ c rest, text.toList = c :: rest ∧ a.starts c = true ∧ ∀ d ∈ rest, a.continues d = true

end Alphabet

inductive Token where
  | num (value : ℚ)
  | name (text : String)
  | mark (text : String)
deriving DecidableEq

/-- Marks of two characters stand before those that they begin with. -/
def marks : List String :=
  ["<=", ">=", "==", "!=", "(", ")", "!", "+", "-", "*", "/", "%", "|", "~", "<", ">"]

def isNumberChar (c : Char) : Bool := c.isDigit || c == '.'

/-- The double nearest to a quotient, as a rational number; none beyond the largest double. -/
def nearest? (num den : Nat) : Option ℚ :=
  let m := Binary64.nearestMagnitude num den
  if m = Binary64.infinityBits then none
  else some ((Binary64.ofMagnitude false m).units / Binary64.unitsPerOne)

/-- Digits with at most one point. -/
def readNumber (cs : List Char) : Option ℚ :=
  let whole := cs.takeWhile Char.isDigit
  match cs.dropWhile Char.isDigit with
  | [] => nearest? (Nat.ofDigitChars 10 whole 0) 1
  | c :: fraction =>
    if c = '.' ∧ fraction.all Char.isDigit = true then
      nearest? (Nat.ofDigitChars 10 (whole ++ fraction) 0) (10 ^ fraction.length)
    else none

/-- The tokens of a text; none if a part of it is no token. -/
def tokenize (a : Alphabet) : List Char → Option (List Token)
  | [] => some []
  | c :: rest =>
    if a.blank c then tokenize a rest
    else if c.isDigit || c == '.' && rest.head?.any Char.isDigit then do
      let value ← readNumber ((c :: rest).takeWhile isNumberChar)
      let tokens ← tokenize a (rest.dropWhile isNumberChar)
      pure (.num value :: tokens)
    else if a.starts c then do
      let tokens ← tokenize a (rest.dropWhile a.continues)
      pure (.name (String.ofList ((c :: rest).takeWhile a.continues)) :: tokens)
    else
      match marks.find? fun m => m.toList.isPrefixOf (c :: rest) with
      | some m => do
        let tokens ← tokenize a (rest.drop (m.length - 1))
        pure (.mark m :: tokens)
      | none => none
termination_by cs => cs.length
decreasing_by
  · simp
  · exact Nat.lt_succ_of_le (List.dropWhile_sublist _).length_le
  · exact Nat.lt_succ_of_le (List.dropWhile_sublist _).length_le
  · simp only [List.length_drop, List.length_cons]
    omega

/-! ## Reading numbers -/

theorem nearest?_eq {x : Binary64} (hFinite : x.magnitude < Binary64.infinityBits) {num den : Nat}
    (h : Binary64.nearestMagnitude num den = x.magnitude) :
    nearest? num den = some (x.units / Binary64.unitsPerOne : ℚ) := by
  have hBits : x.magnitude < 2 ^ 63 := hFinite.trans (by decide)
  simp only [nearest?, h, Nat.ne_of_lt hFinite, if_false,
    Binary64.units_congr (Binary64.magnitude_ofMagnitude false hBits)]

theorem readNumber_whole {whole : List Char} (hDigits : ∀ c ∈ whole, c.isDigit = true) :
    readNumber whole = nearest? (Nat.ofDigitChars 10 whole 0) 1 := by
  have hTake : whole.takeWhile Char.isDigit = whole := List.takeWhile_eq_self_iff.mpr hDigits
  have hDrop : whole.dropWhile Char.isDigit = [] := List.dropWhile_eq_nil_iff.mpr hDigits
  simp only [readNumber, hTake, hDrop]

theorem readNumber_fraction {whole fraction : List Char} (hWhole : ∀ c ∈ whole, c.isDigit = true)
    (hFraction : ∀ c ∈ fraction, c.isDigit = true) :
    readNumber (whole ++ '.' :: fraction) =
      nearest? (Nat.ofDigitChars 10 (whole ++ fraction) 0) (10 ^ fraction.length) := by
  have hTake : (whole ++ '.' :: fraction).takeWhile Char.isDigit = whole := by
    rw [List.takeWhile_append_of_pos hWhole]
    simp
  have hDrop : (whole ++ '.' :: fraction).dropWhile Char.isDigit = '.' :: fraction := by
    rw [List.dropWhile_append_of_pos hWhole]
    simp
  have hAll : fraction.all Char.isDigit = true := List.all_eq_true.mpr hFraction
  simp only [readNumber, hTake, hDrop, hAll, and_self, if_true]

theorem readNumber_shortest {x : Binary64} (hFinite : x.magnitude < Binary64.infinityBits) (tie : TieRule) :
    readNumber (x.shortest tie).plain = some (x.units / Binary64.unitsPerOne : ℚ) := by
  rcases hParts : (x.shortest tie).plainParts with ⟨whole, fraction⟩
  obtain ⟨-, hDigits, hValue⟩ := Decimal.plainParts_spec hParts
  have hWhole : ∀ c ∈ whole, c.isDigit = true := fun c hc => hDigits c (List.mem_append_left _ hc)
  have hFraction : ∀ c ∈ fraction, c.isDigit = true := fun c hc => hDigits c (List.mem_append_right _ hc)
  cases fraction with
  | nil =>
    have hPlain : (x.shortest tie).plain = whole := by simp only [Decimal.plain, hParts]
    rw [hPlain, readNumber_whole hWhole]
    refine nearest?_eq hFinite (Binary64.nearestMagnitude_shortest hFinite tie Nat.one_pos ?_)
    simpa using hValue
  | cons c fraction =>
    have hPlain : (x.shortest tie).plain = whole ++ '.' :: c :: fraction := by simp only [Decimal.plain, hParts]
    rw [hPlain, readNumber_fraction hWhole hFraction]
    refine nearest?_eq hFinite (Binary64.nearestMagnitude_shortest hFinite tie (by positivity) ?_)
    exact_mod_cast hValue

theorem plain_shape (d : Decimal) :
    ∃ c cs, d.plain = c :: cs ∧ c.isDigit = true ∧ ∀ e ∈ cs, isNumberChar e = true := by
  rcases hParts : d.plainParts with ⟨whole, fraction⟩
  obtain ⟨hNonempty, hDigits, -⟩ := Decimal.plainParts_spec hParts
  obtain ⟨c, whole, rfl⟩ := List.exists_cons_of_ne_nil hNonempty
  simp only [List.cons_append, List.mem_cons, List.mem_append, forall_eq_or_imp] at hDigits
  obtain ⟨hc, hDigits⟩ := hDigits
  cases fraction with
  | nil =>
    refine ⟨c, whole, by simp only [Decimal.plain, hParts], hc, fun e he => ?_⟩
    simp [isNumberChar, hDigits e (.inl he)]
  | cons b fraction =>
    refine ⟨c, whole ++ '.' :: b :: fraction, by simp only [Decimal.plain, hParts, List.cons_append], hc,
      fun e he => ?_⟩
    rw [List.mem_append, List.mem_cons] at he
    obtain he | rfl | he := he
    · simp [isNumberChar, hDigits e (.inl he)]
    · rfl
    · simp [isNumberChar, hDigits e (.inr he)]

theorem readNumber_zero : readNumber ['0'] = some 0 := by
  rw [readNumber_whole (by simp), nearest?_eq (x := .zero false) (by decide +kernel) (by decide +kernel)]
  have hUnits : (Binary64.zero false).units = 0 := by decide +kernel
  rw [hUnits, Nat.cast_zero, zero_div]

theorem readNumber_one : readNumber ['1'] = some 1 := by
  rw [readNumber_whole (by simp), nearest?_eq (x := .ofNat 1) (by decide +kernel) (by decide +kernel)]
  have hUnits : (Binary64.ofNat 1).units = Binary64.unitsPerOne := by decide +kernel
  rw [hUnits, div_self (by exact_mod_cast Binary64.unitsPerOne_pos.ne')]

/-! ## Texts that are tokens whatever follows -/

/-- The text is read as these tokens, whatever comes after it. -/
def Lexes (a : Alphabet) (cs : List Char) (ts : List Token) : Prop :=
  ∀ rest, tokenize a (cs ++ rest) = (tokenize a rest).map (ts ++ ·)

variable {a : Alphabet}

theorem lexes_nil : Lexes a [] [] := fun rest => by simp

theorem Lexes.append {cs ds : List Char} {ts us : List Token} (hcs : Lexes a cs ts) (hds : Lexes a ds us) :
    Lexes a (cs ++ ds) (ts ++ us) := by
  intro rest
  rw [List.append_assoc, hcs, hds, Option.map_map]
  congr 1
  funext vs
  simp

/-- Characters that marks are made of. -/
def markChars : List Char := ['(', ')', '!', '+', '-', '*', '/', '%', '|', '~', '<', '>', '=']

theorem markChar_classes {c : Char} (hc : c ∈ markChars) :
    a.blank c = false ∧ c.isDigit = false ∧ c ≠ '.' ∧ a.starts c = false ∧ a.continues c = false := by
  have hAscii : ∀ c ∈ markChars, c.toNat < 128 ∧
      [' ', '\t', '\n', '\x0b', '\x0c', '\r'].contains c = false ∧ c.isDigit = false ∧ c ≠ '.' ∧
      c.isAlpha = false ∧ c ≠ '_' ∧ c ≠ '$' := by simp [markChars]
  obtain ⟨hLt, hBlank, hDigit, hPoint, hAlpha, hLine, hDollar⟩ := hAscii c hc
  refine ⟨(a.blank_ascii c hLt).trans hBlank, hDigit, hPoint, ?_, ?_⟩
  · simp [Alphabet.starts, a.letter_ascii c hLt, hAlpha, hLine, hDollar]
  · simp [Alphabet.continues, a.letter_ascii c hLt, a.numeric_ascii c hLt, hAlpha, hDigit, hLine, hDollar]

theorem tokenize_mark {m : String} {rest : List Char}
    (hm : marks.find? (fun n => n.toList.isPrefixOf (m.toList ++ rest)) = some m) :
    tokenize a (m.toList ++ rest) = (tokenize a rest).map (.mark m :: ·) := by
  have hShape : ∀ m ∈ marks, ∃ c cs, m.toList = c :: cs ∧ c ∈ markChars := by simp [marks, markChars]
  obtain ⟨c, cs, hChars, hc⟩ := hShape m (List.mem_of_find?_eq_some hm)
  have hLength : m.length - 1 = cs.length := by
    rw [← String.length_toList, hChars]
    rfl
  obtain ⟨hBlank, hDigit, hPoint, hStarts, -⟩ := markChar_classes (a := a) hc
  rw [hChars, List.cons_append] at hm ⊢
  rw [tokenize, hBlank, hDigit, hStarts]
  simp only [Bool.false_eq_true, if_false, Bool.false_or, beq_iff_eq, hPoint, Bool.and_eq_true, false_and, hm,
    hLength, List.drop_left]
  cases tokenize a rest <;> rfl

/-- A mark is read as itself if no sign of equality comes after it. -/
theorem find?_marks {m : String} (hm : m ∈ marks) {rest : List Char} (hRest : rest.head? ≠ some '=') :
    marks.find? (fun n => n.toList.isPrefixOf (m.toList ++ rest)) = some m := by
  have hNext : ['='].isPrefixOf rest = false := by
    cases rest with
    | nil => rfl
    | cons d rest =>
      have hd : '=' ≠ d := fun h => hRest (congrArg some h.symm)
      simp [List.isPrefixOf, hd]
  simp only [marks, List.mem_cons, List.not_mem_nil, or_false] at hm
  rcases hm with rfl | rfl | rfl | rfl | rfl | rfl | rfl | rfl | rfl | rfl | rfl | rfl | rfl | rfl | rfl | rfl <;>
    simp [marks, hNext]

theorem classes_of_isDigit {c : Char} (hc : c.isDigit = true) : a.blank c = false ∧ a.letter c = false := by
  have hRange : 48 ≤ c.toNat ∧ c.toNat ≤ 57 := by
    simpa [Char.isDigit, UInt32.le_iff_toNat_le] using hc
  have hAscii : c.toNat < 128 := by omega
  have hNot : ∀ b ∈ [' ', '\t', '\n', '\x0b', '\x0c', '\r'], b.isDigit = false := by simp
  constructor
  · rw [a.blank_ascii c hAscii, ← Bool.not_eq_true, List.contains_iff_mem]
    exact fun hMem => by simp [hNot c hMem] at hc
  · rw [a.letter_ascii c hAscii]
    have hDigits : ∀ n < 10, (Char.ofNat (48 + n)).isAlpha = false := by decide
    have hChar : Char.ofNat (48 + (c.toNat - 48)) = c := by
      rw [Nat.add_sub_cancel' hRange.1, Char.ofNat_toNat]
    rw [← hChar]
    exact hDigits _ (by omega)

theorem continues_of_starts {c : Char} (hc : a.starts c = true) : a.continues c = true := by
  simp only [Alphabet.starts, Alphabet.continues, Bool.or_eq_true] at hc ⊢
  tauto

theorem classes_of_starts {c : Char} (hc : a.starts c = true) :
    a.blank c = false ∧ c.isDigit = false ∧ c ≠ '.' := by
  simp only [Alphabet.starts, Bool.or_eq_true, beq_iff_eq] at hc
  obtain (hLetter | rfl) | rfl := hc
  · refine ⟨a.blank_letter c hLetter, ?_, ?_⟩
    · by_contra hDigit
      simp [(classes_of_isDigit (a := a) (Bool.of_not_eq_false hDigit)).2] at hLetter
    · rintro rfl
      rw [a.letter_ascii '.' (by decide)] at hLetter
      simp at hLetter
  · exact ⟨(a.blank_ascii '_' (by decide)).trans (by decide), by decide, by decide⟩
  · exact ⟨(a.blank_ascii '$' (by decide)).trans (by decide), by decide, by decide⟩

namespace Lexes

variable {cs : List Char} {ts : List Token}

theorem space (h : Lexes a cs ts) : Lexes a (' ' :: cs) ts := by
  intro rest
  have hBlank : a.blank ' ' = true := by
    rw [a.blank_ascii ' ' (by decide)]
    decide
  rw [List.cons_append, tokenize, if_pos hBlank, h]

theorem opening (h : Lexes a cs ts) : Lexes a ('(' :: cs) (.mark "(" :: ts) := by
  intro rest
  have hMark : tokenize a ("(".toList ++ (cs ++ rest)) = _ := tokenize_mark rfl
  rw [h, Option.map_map] at hMark
  exact hMark

theorem closing (h : Lexes a cs ts) : Lexes a (')' :: cs) (.mark ")" :: ts) := by
  intro rest
  have hMark : tokenize a (")".toList ++ (cs ++ rest)) = _ := tokenize_mark rfl
  rw [h, Option.map_map] at hMark
  exact hMark

theorem mark {m : String} (hm : m ∈ marks) {d : Char} (hd : d ≠ '=') (h : Lexes a (d :: cs) ts) :
    Lexes a (m.toList ++ d :: cs) (.mark m :: ts) := by
  intro rest
  have hNext : (d :: cs ++ rest).head? ≠ some '=' := fun hEq => hd (Option.some.inj hEq)
  rw [List.append_assoc, tokenize_mark (find?_marks hm hNext), h, Option.map_map]
  rfl

theorem number {c : Char} (ds : List Char) {value : ℚ} (hc : c.isDigit = true)
    (hDigits : ∀ d ∈ ds, isNumberChar d = true) (hValue : readNumber (c :: ds) = some value) {d : Char}
    (hd : isNumberChar d = false) (h : Lexes a (d :: cs) ts) :
    Lexes a (c :: ds ++ d :: cs) (.num value :: ts) := by
  intro rest
  have hAll : ∀ d ∈ c :: ds, isNumberChar d = true := by simpa [isNumberChar, hc] using hDigits
  have hTake : (c :: (ds ++ (d :: cs ++ rest))).takeWhile isNumberChar = c :: ds := by
    rw [← List.cons_append, List.takeWhile_append_of_pos hAll]
    simp [hd]
  have hDrop : (ds ++ (d :: cs ++ rest)).dropWhile isNumberChar = d :: cs ++ rest := by
    rw [List.dropWhile_append_of_pos hDigits]
    simp [hd]
  rw [List.append_assoc, List.cons_append, tokenize, (classes_of_isDigit hc).1, hc, hTake, hDrop, hValue, h]
  cases tokenize a rest <;> rfl

theorem name {text : String} (hText : a.IsName text) {d : Char} (hd : a.continues d = false)
    (h : Lexes a (d :: cs) ts) : Lexes a (text.toList ++ d :: cs) (.name text :: ts) := by
  intro rest
  obtain ⟨c, ds, hChars, hc, hDs⟩ := hText
  obtain ⟨hBlank, hDigit, hPoint⟩ := classes_of_starts hc
  have hAll : ∀ d ∈ c :: ds, a.continues d = true := by
    simp only [List.mem_cons, forall_eq_or_imp]
    exact ⟨continues_of_starts hc, hDs⟩
  have hTake : (c :: (ds ++ (d :: cs ++ rest))).takeWhile a.continues = text.toList := by
    rw [← List.cons_append, List.takeWhile_append_of_pos hAll, hChars]
    simp [hd]
  have hDrop : (ds ++ (d :: cs ++ rest)).dropWhile a.continues = d :: cs ++ rest := by
    rw [List.dropWhile_append_of_pos hDs]
    simp [hd]
  rw [List.append_assoc, hChars, List.cons_append, tokenize, hBlank, hDigit, hc, hTake, hDrop, h,
    String.ofList_toList]
  simp only [Bool.false_eq_true, if_false, Bool.false_or, beq_iff_eq, hPoint, Bool.and_eq_true, false_and,
    if_true]
  cases tokenize a rest <;> rfl

end Lexes
end TreeLowering.Target

import TreeLowering.Proofs.Text.Literal
import TreeLowering.Text.Search

/-! # Searching around separators and in literals

A text that does not have some character is found on one side of it or on the other, never across it. -/
namespace TreeLowering
set_option autoImplicit false

namespace Text

variable {α : Type} [BEq α] [LawfulBEq α] {needle xs ys : List α} {c : α}

theorem isPrefixOf_append_cons (h : c ∉ needle) (xs : List α) :
    needle.isPrefixOf (xs ++ c :: ys) = needle.isPrefixOf xs := by
  induction needle generalizing xs with
  | nil => simp
  | cons n needle ih =>
    rw [List.mem_cons, not_or] at h
    cases xs with
    | nil =>
      have hHead : (n == c) = false := beq_false_of_ne (Ne.symm h.1)
      rw [List.nil_append, List.isPrefixOf_cons_cons, hHead, Bool.false_and, List.isPrefixOf_cons_nil]
    | cons x xs => rw [List.cons_append, List.isPrefixOf_cons_cons, List.isPrefixOf_cons_cons, ih h.2]

theorem occursIn_append_cons (h : c ∉ needle) (xs : List α) :
    occursIn needle (xs ++ c :: ys) = (occursIn needle xs || occursIn needle ys) := by
  induction xs with
  | nil =>
    have hHere : needle.isPrefixOf (c :: ys) = needle.isPrefixOf [] := isPrefixOf_append_cons h []
    rw [List.nil_append, occursIn, occursIn, hHere]
    cases needle <;> rfl
  | cons x xs ih =>
    have hHere : needle.isPrefixOf (x :: (xs ++ c :: ys)) = needle.isPrefixOf (x :: xs) :=
      isPrefixOf_append_cons h (x :: xs)
    rw [List.cons_append, occursIn, occursIn, hHere, ih, Bool.or_assoc]

/-- What stands between two marks is searched apart from what stands in front of them. -/
theorem occursIn_enclosed (h : c ∉ needle) (hNeedle : needle ≠ []) (hFront : occursIn needle xs = false)
    (ys : List α) : occursIn needle (xs ++ c :: (ys ++ [c])) = occursIn needle ys := by
  have hNothing : occursIn needle [] = false := by
    cases needle with
    | nil => exact absurd rfl hNeedle
    | cons n needle => rfl
  rw [occursIn_append_cons h, occursIn_append_cons h, hFront, hNothing, Bool.false_or, Bool.or_false]

theorem occursIn_append (h : occursIn needle xs = true) (ys : List α) : occursIn needle (xs ++ ys) = true := by
  induction xs with
  | nil =>
    cases needle with
    | nil => cases ys <;> rfl
    | cons n needle => cases h
  | cons x xs ih =>
    rw [occursIn, Bool.or_eq_true, List.isPrefixOf_iff_prefix] at h
    rw [List.cons_append, occursIn, Bool.or_eq_true, List.isPrefixOf_iff_prefix]
    exact h.imp (fun hHere => hHere.trans (List.prefix_append _ _)) ih

theorem occursIn_cons_of_ne {n : α} (h : n ≠ c) (needle xs : List α) :
    occursIn (n :: needle) (c :: xs) = occursIn (n :: needle) xs := by
  rw [occursIn, List.isPrefixOf_cons_cons, beq_false_of_ne h, Bool.false_and, Bool.false_or]

end Text

namespace Quoted

open Text

variable {needle : List Char}

theorem isPrefixOf_encode (h : ∀ c ∈ needle, encodeChar c = [c]) (cs : List Char) :
    needle.isPrefixOf (encode cs) = needle.isPrefixOf cs := by
  induction needle generalizing cs with
  | nil => simp
  | cons n needle ih =>
    rw [List.forall_mem_cons] at h
    cases cs with
    | nil => rfl
    | cons c cs =>
      by_cases hPlain : encodeChar c = [c]
      · rw [encode_cons, hPlain, List.singleton_append, List.isPrefixOf_cons_cons, List.isPrefixOf_cons_cons, ih h.2]
      · -- The character is escaped, so it is none of the text that is searched for.
        have hOther : (n == c) = false := by
          refine beq_false_of_ne ?_
          rintro rfl
          exact hPlain h.1
        have hSlash : (n == '\\') = false := by
          refine beq_false_of_ne ?_
          rintro rfl
          cases h.1
        have hText : ∃ tail, encodeChar c = '\\' :: tail := by
          obtain ⟨e, -, hText⟩ | ⟨a, b, -, -, hText⟩ | ⟨-, -, -, hText⟩ := encodeChar_cases c
          · exact ⟨_, hText⟩
          · exact ⟨_, hText⟩
          · exact absurd hText hPlain
        obtain ⟨tail, hText⟩ := hText
        rw [encode_cons, hText, List.cons_append, List.isPrefixOf_cons_cons, List.isPrefixOf_cons_cons, hOther, hSlash,
          Bool.false_and, Bool.false_and]

/-- A text that starts with "un" and needs no escapes is found in a literal where it is found in its text: an
escape is none of it, and what follows the backslash of one does not start like it. -/
theorem occursIn_encode (h : ∀ c ∈ 'u' :: 'n' :: needle, encodeChar c = [c]) (cs : List Char) :
    occursIn ('u' :: 'n' :: needle) (encode cs) = occursIn ('u' :: 'n' :: needle) cs := by
  induction cs with
  | nil => rfl
  | cons c cs ih =>
    have hSlash : 'u' ≠ '\\' := by decide
    have hEscaped (hText : encodeChar c ≠ [c]) : 'u' ≠ c := by
      rintro rfl
      exact hText (h _ List.mem_cons_self)
    obtain ⟨e, hShort, hText⟩ | ⟨a, b, ha, hb, hText⟩ | ⟨-, -, -, hText⟩ := encodeChar_cases c
    · have hOther : 'u' ≠ c := hEscaped (by simp [hText])
      have hLetter : 'u' ≠ e := (unescape?_of_shortEscape? hShort).1.symm
      rw [encode_cons, hText, List.cons_append, List.cons_append, List.nil_append, occursIn_cons_of_ne hSlash,
        occursIn_cons_of_ne hLetter, occursIn_cons_of_ne hOther, ih]
    · have hOther : 'u' ≠ c := hEscaped (by simp [hText])
      have hZero : 'u' ≠ '0' := by decide
      have hHere (tail : List Char) : ('u' :: 'n' :: needle).isPrefixOf ('u' :: '0' :: tail) = false := by
        rw [List.isPrefixOf_cons_cons, List.isPrefixOf_cons_cons]
        rfl
      rw [encode_cons, hText, occursIn_cons_of_ne hOther, ← ih]
      simp only [List.cons_append, List.nil_append]
      rw [occursIn_cons_of_ne hSlash, occursIn, hHere, Bool.false_or, occursIn_cons_of_ne hZero,
        occursIn_cons_of_ne hZero, occursIn_cons_of_ne (hexDigit_plain ha).2.2.2.symm,
        occursIn_cons_of_ne (hexDigit_plain hb).2.2.2.symm]
    · have hHere :
          ('u' :: 'n' :: needle).isPrefixOf (c :: encode cs) = ('u' :: 'n' :: needle).isPrefixOf (c :: cs) := by
        rw [← isPrefixOf_encode h (c :: cs), encode_cons, hText, List.singleton_append]
      rw [encode_cons, hText, List.singleton_append, occursIn, occursIn, hHere, ih]

end Quoted
end TreeLowering

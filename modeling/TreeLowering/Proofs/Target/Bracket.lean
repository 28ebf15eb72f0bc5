import TreeLowering.Proofs.Scope.Spelling
import TreeLowering.Proofs.Target.Token
import TreeLowering.Proofs.Text.Literal

/-! # Brackets of target text

A reader goes through target text from left to right. It keeps the open brackets, and skips what is
inside double-quoted literals. -/
namespace TreeLowering.Target
set_option autoImplicit false

inductive Bracket where
  | round
  | square
  | curly
deriving DecidableEq

namespace Bracket

def opened? : Char → Option Bracket
  | '(' => some round
  | '[' => some square
  | '\x7b' => some curly
  | _ => none

def closed? : Char → Option Bracket
  | ')' => some round
  | ']' => some square
  | '\x7d' => some curly
  | _ => none

end Bracket

/-- What the reader is inside of; `escaped` is behind a backslash in a literal. -/
inductive Zone where
  | code
  | literal
  | escaped
deriving DecidableEq

/-- Where the reader is, and the brackets to be closed, innermost first. -/
structure Nesting where
  zone : Zone
  pending : List Bracket
deriving DecidableEq

/-- One character; there is no next state if it closes a bracket that is not the innermost one. -/
def Nesting.step (n : Nesting) (c : Char) : Option Nesting :=
  match n.zone with
  | .escaped => some ⟨.literal, n.pending⟩
  | .literal =>
    if c = '\\' then some ⟨.escaped, n.pending⟩
    else if c = '"' then some ⟨.code, n.pending⟩
    else some n
  | .code =>
    if c = '"' then some ⟨.literal, n.pending⟩
    else
      match Bracket.opened? c, Bracket.closed? c with
      | some b, _ => some ⟨.code, b :: n.pending⟩
      | none, some b => if n.pending.head? = some b then some ⟨.code, n.pending.tail⟩ else none
      | none, none => some n

/-- Between two places in code the text leads from some open brackets to others. -/
def Moves (a b : List Bracket) (s : String) : Prop :=
  s.toList.foldlM Nesting.step ⟨.code, a⟩ = some ⟨.code, b⟩

/-- All brackets outside literals are nested and closed, and so is every literal. -/
def WellBracketed (s : String) : Prop := Moves [] [] s

/-- A character that neither is a bracket nor opens a literal. -/
def Neutral (c : Char) : Prop := c ∉ ['(', ')', '[', ']', '\x7b', '\x7d', '"']

instance (c : Char) : Decidable (Neutral c) := inferInstanceAs (Decidable (c ∉ _))

theorem Neutral.of_isAlphanum {c : Char} (h : c.isAlphanum = true) : Neutral c := by
  intro hc
  simp only [List.mem_cons, List.not_mem_nil, or_false] at hc
  rcases hc with rfl | rfl | rfl | rfl | rfl | rfl | rfl <;> cases h

theorem neutral_nameClass : NameClass Neutral where
  word := fun _ => Neutral.of_isAlphanum
  dollar := by decide
  dot := by decide

theorem Neutral.step {c : Char} (h : Neutral c) (a : List Bracket) :
    Nesting.step ⟨.code, a⟩ c = some ⟨.code, a⟩ := by
  simp only [Neutral, List.mem_cons, List.not_mem_nil, or_false, not_or] at h
  obtain ⟨hRound, hRound', hSquare, hSquare', hCurly, hCurly', hQuote⟩ := h
  simp [Nesting.step, Bracket.opened?, Bracket.closed?, hQuote]

namespace Moves

variable {a b c : List Bracket} {s t : String}

theorem append (hs : Moves a b s) (ht : Moves b c t) : Moves a c (s ++ t) := by
  rw [Moves, String.toList_append, List.foldlM_append, hs]
  exact ht

theorem of_neutral (h : Spelled Neutral s) : Moves a a s := by
  have hRead : ∀ cs : List Char, (∀ c ∈ cs, Neutral c) →
      cs.foldlM Nesting.step ⟨.code, a⟩ = some ⟨.code, a⟩ := by
    intro cs hcs
    induction cs with
    | nil => rfl
    | cons c cs ih =>
      rw [List.forall_mem_cons] at hcs
      rw [List.foldlM_cons, hcs.1.step]
      exact ih hcs.2
  exact hRead s.toList h

end Moves

/-! ## Literals -/

/-- A character that a literal goes on behind. -/
def Held (c : Char) : Prop := c ≠ '\\' ∧ c ≠ '"'

instance (c : Char) : Decidable (Held c) := inferInstanceAs (Decidable (_ ∧ _))

theorem held_hexDigit {n : Nat} (h : n < 16) : Held (Quoted.hexDigit n) :=
  have hPlain := Quoted.hexDigit_plain h
  ⟨hPlain.2.1, hPlain.2.2.1⟩

/-- A reader that goes through a literal in one state, and behind a backslash is in another. -/
structure ReadsLiteral {σ : Type} (step : σ → Char → Option σ) (inside escaped : σ) : Prop where
  held : ∀ c, Held c → step inside c = some inside
  backslash : step inside '\\' = some escaped
  resume : ∀ c, step escaped c = some inside

namespace ReadsLiteral

variable {σ : Type} {step : σ → Char → Option σ} {inside escaped : σ} (h : ReadsLiteral step inside escaped)

include h

theorem foldlM_held {cs : List Char} (hcs : ∀ c ∈ cs, Held c) : cs.foldlM step inside = some inside := by
  induction cs with
  | nil => rfl
  | cons c cs ih =>
    rw [List.forall_mem_cons] at hcs
    rw [List.foldlM_cons, h.held c hcs.1]
    exact ih hcs.2

/-- A reader inside a literal is there again behind a written character. -/
theorem foldlM_encodeChar (c : Char) : (Quoted.encodeChar c).foldlM step inside = some inside := by
  have hEscape : ∀ (d : Char) (cs : List Char),
      ('\\' :: d :: cs).foldlM step inside = cs.foldlM step inside := by
    intro d cs
    rw [List.foldlM_cons, h.backslash]
    change (step escaped d >>= fun x => cs.foldlM step x) = _
    rw [h.resume]
    rfl
  obtain ⟨e, -, hText⟩ | ⟨a, b, ha, hb, hText⟩ | ⟨-, hSlash, hQuote, hText⟩ := Quoted.encodeChar_cases c
  · rw [hText]
    exact hEscape e []
  · have hDigits : ∀ d ∈ ['0', '0', Quoted.hexDigit a, Quoted.hexDigit b], Held d := by
      simp only [List.forall_mem_cons]
      exact ⟨by decide, by decide, held_hexDigit ha, held_hexDigit hb, List.forall_mem_nil _⟩
    rw [hText, hEscape]
    exact h.foldlM_held hDigits
  · rw [hText]
    exact h.foldlM_held (List.forall_mem_singleton.mpr ⟨hSlash, hQuote⟩)

theorem foldlM_encode (cs : List Char) : (Quoted.encode cs).foldlM step inside = some inside := by
  induction cs with
  | nil => rfl
  | cons c cs ih =>
    rw [Quoted.encode_cons, List.foldlM_append, h.foldlM_encodeChar]
    exact ih

theorem foldlM_quote {outside : σ} (hOpen : step outside '"' = some inside)
    (hClose : step inside '"' = some outside) (s : String) :
    (Quoted.quote s).toList.foldlM step outside = some outside := by
  rw [Quoted.toList_quote, List.foldlM_cons, hOpen]
  change ((Quoted.encode s.toList ++ ['"']).foldlM step inside) = _
  rw [List.foldlM_append, h.foldlM_encode]
  change (step inside '"' >>= fun x => pure x) = _
  rw [hClose]
  rfl

end ReadsLiteral

theorem Nesting.readsLiteral (a : List Bracket) : ReadsLiteral Nesting.step ⟨.literal, a⟩ ⟨.escaped, a⟩ where
  held c hc := by simp [Nesting.step, hc.1, hc.2]
  backslash := rfl
  resume _ := rfl

theorem Moves.quote (a : List Bracket) (s : String) : Moves a a (Quoted.quote s) :=
  (Nesting.readsLiteral a).foldlM_quote rfl rfl s

theorem Neutral.of_isNumberChar {c : Char} (h : isNumberChar c = true) : Neutral c := by
  rw [isNumberChar, Bool.or_eq_true, beq_iff_eq] at h
  rcases h with hDigit | rfl
  · exact .of_isAlphanum (by simp [Char.isAlphanum, hDigit])
  · decide

theorem neutral_literal (x : Binary64) : Spelled Neutral x.literal := by
  have hSign : Spelled Neutral (if x.negative then "-" else "") := by
    split
    · exact List.forall_mem_singleton.mpr (by decide)
    · exact List.forall_mem_nil _
  have hPlain : Spelled Neutral (String.ofList (x.shortest .up).plain) := by
    obtain ⟨d, ds, hEq, hDigit, hRest⟩ := plain_shape (x.shortest .up)
    rw [Spelled, String.toList_ofList, hEq, List.forall_mem_cons]
    exact ⟨.of_isNumberChar (by simp [isNumberChar, hDigit]), fun c hc => .of_isNumberChar (hRest c hc)⟩
  rw [Binary64.literal]
  split
  · exact neutral_nameClass.spelled (by simp)
  · dsimp only
    split
    · exact hSign.append (neutral_nameClass.spelled (by simp))
    · exact hSign.append hPlain

end TreeLowering.Target

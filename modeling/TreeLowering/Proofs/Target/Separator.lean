import TreeLowering.Proofs.Target.Bracket

/-! # Separators of target text

A reader of target text counts the semicolons outside of all brackets and literals. Between brackets
it counts none, so the text there only has to be well bracketed. -/
namespace TreeLowering.Target
set_option autoImplicit false

structure Tally where
  nesting : Nesting
  count : Nat
deriving DecidableEq

def Tally.step (x : Tally) (c : Char) : Option Tally :=
  (x.nesting.step c).map fun n =>
    ⟨n, if c = ';' ∧ x.nesting = ⟨.code, []⟩ then x.count + 1 else x.count⟩

/-- The text leads from some open brackets to others, and the reader counts that many separators. -/
def Tallies (a b : List Bracket) (n : Nat) (s : String) : Prop :=
  ∀ m, s.toList.foldlM Tally.step ⟨⟨.code, a⟩, m⟩ = some ⟨⟨.code, b⟩, m + n⟩

/-- The text is well bracketed, and has that many separators outside of all brackets and literals. -/
def Separated (n : Nat) (s : String) : Prop :=
  s.toList.foldlM Tally.step ⟨⟨.code, []⟩, 0⟩ = some ⟨⟨.code, []⟩, n⟩

instance (n : Nat) (s : String) : Decidable (Separated n s) := inferInstanceAs (Decidable (_ = _))

/-- A character that the reader passes without a change. -/
def Passed (c : Char) : Prop := Neutral c ∧ c ≠ ';'

instance (c : Char) : Decidable (Passed c) := inferInstanceAs (Decidable (_ ∧ _))

theorem passed_nameClass : NameClass Passed where
  word c hc := by
    refine ⟨.of_isAlphanum hc, ?_⟩
    rintro rfl
    cases hc
  dollar := by decide
  dot := by decide

namespace Tallies

variable {a b c : List Bracket} {m n : Nat} {s t : String}

theorem separated (h : Tallies [] [] n s) : Separated n s := by
  rw [Separated, h 0, Nat.zero_add]

theorem append (hs : Tallies a b m s) (ht : Tallies b c n t) : Tallies a c (m + n) (s ++ t) := by
  intro start
  rw [String.toList_append, List.foldlM_append, hs start]
  change t.toList.foldlM Tally.step ⟨⟨.code, b⟩, start + m⟩ = _
  rw [ht, Nat.add_assoc]

theorem lead (hs : Tallies a b 0 s) (ht : Tallies b c n t) : Tallies a c n (s ++ t) := by
  have hBoth := hs.append ht
  rwa [Nat.zero_add] at hBoth

theorem of_passed (h : Spelled Passed s) : Tallies a a 0 s := by
  have hRead : ∀ cs : List Char, (∀ c ∈ cs, Passed c) → ∀ start,
      cs.foldlM Tally.step ⟨⟨.code, a⟩, start⟩ = some ⟨⟨.code, a⟩, start⟩ := by
    intro cs hcs start
    induction cs with
    | nil => rfl
    | cons c cs ih =>
      rw [List.forall_mem_cons] at hcs
      have hStep : Tally.step ⟨⟨.code, a⟩, start⟩ c = some ⟨⟨.code, a⟩, start⟩ := by
        rw [Tally.step, hcs.1.1.step, Option.map_some, if_neg fun h => hcs.1.2 h.1]
      rw [List.foldlM_cons, hStep]
      exact ih hcs.2
  exact hRead s.toList h

end Tallies

/-! ## Between brackets -/

theorem Nesting.step_enclosed {n n' : Nesting} {c : Char} (h : n.step c = some n') (outer : List Bracket) :
    Nesting.step ⟨n.zone, n.pending ++ outer⟩ c = some ⟨n'.zone, n'.pending ++ outer⟩ := by
  obtain ⟨zone, pending⟩ := n
  cases zone with
  | escaped =>
    cases h
    rfl
  | literal =>
    simp only [Nesting.step] at h ⊢
    split at h
    · rename_i hBackslash
      cases h
      rw [if_pos hBackslash]
    · rename_i hBackslash
      rw [if_neg hBackslash]
      split at h
      · rename_i hQuote
        cases h
        rw [if_pos hQuote]
      · rename_i hQuote
        cases h
        rw [if_neg hQuote]
  | code =>
    simp only [Nesting.step] at h ⊢
    split at h
    · rename_i hQuote
      cases h
      rw [if_pos hQuote]
    · rename_i hQuote
      rw [if_neg hQuote]
      cases hOpened : Bracket.opened? c with
      | some b =>
        simp only [hOpened] at h ⊢
        cases h
        rfl
      | none =>
        cases hClosed : Bracket.closed? c with
        | none =>
          simp only [hOpened, hClosed] at h ⊢
          cases h
          rfl
        | some b =>
          simp only [hOpened, hClosed] at h ⊢
          split at h
          · rename_i hHead
            cases h
            -- The closed bracket is not one of the outer ones.
            obtain ⟨rest, hRest⟩ := List.head?_eq_some_iff.mp hHead
            simp [hRest]
          · cases h

/-- No separator counts while an outer bracket is open. -/
theorem Moves.enclosed {a b outer : List Bracket} {s : String} (h : Moves a b s) (hOuter : outer ≠ []) :
    Tallies (a ++ outer) (b ++ outer) 0 s := by
  have hRead : ∀ (cs : List Char) (n n' : Nesting), cs.foldlM Nesting.step n = some n' → ∀ start,
      cs.foldlM Tally.step ⟨⟨n.zone, n.pending ++ outer⟩, start⟩ =
        some ⟨⟨n'.zone, n'.pending ++ outer⟩, start⟩ := by
    intro cs
    induction cs with
    | nil =>
      intro n n' hRun start
      cases hRun
      rfl
    | cons c cs ih =>
      intro n n' hRun start
      rw [List.foldlM_cons] at hRun
      obtain ⟨middle, hFirst, hRest⟩ := Option.bind_eq_some_iff.mp hRun
      -- The outer brackets stay below those of the text, so the reader is never outside of all brackets.
      have hInside : ¬(c = ';' ∧ (⟨n.zone, n.pending ++ outer⟩ : Nesting) = ⟨.code, []⟩) := by
        rintro ⟨_, hEmpty⟩
        exact hOuter (List.append_eq_nil_iff.mp (congrArg Nesting.pending hEmpty)).2
      have hStep : Tally.step ⟨⟨n.zone, n.pending ++ outer⟩, start⟩ c =
          some ⟨⟨middle.zone, middle.pending ++ outer⟩, start⟩ := by
        rw [Tally.step, Nesting.step_enclosed hFirst, Option.map_some, if_neg hInside]
      rw [List.foldlM_cons, hStep]
      exact ih middle n' hRest start
  exact hRead s.toList ⟨.code, a⟩ ⟨.code, b⟩ h

theorem Tally.readsLiteral (a : List Bracket) (n : Nat) :
    ReadsLiteral Tally.step ⟨⟨.literal, a⟩, n⟩ ⟨⟨.escaped, a⟩, n⟩ where
  held c hc := by
    rw [Tally.step, (Nesting.readsLiteral a).held c hc]
    simp
  backslash := rfl
  resume c := by
    rw [Tally.step, (Nesting.readsLiteral a).resume c]
    simp

theorem Tallies.quote (a : List Bracket) (s : String) : Tallies a a 0 (Quoted.quote s) := fun n =>
  (Tally.readsLiteral a n).foldlM_quote rfl rfl s

end TreeLowering.Target

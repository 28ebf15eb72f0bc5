import TreeLowering.Proofs.Emit.Property
import TreeLowering.Proofs.Emit.Written

/-! # Levels of indentation

Whatever opens a level closes it again, unless something fails in between. So lowering comes back to the
level it started from, a failure leaves it there or deeper, and the first level is never left. -/
namespace TreeLowering
set_option autoImplicit false

namespace Emit

/-- The emission ends at the level of the sink, or it fails there or deeper because a look-up does.
Either way it only adds to the text. -/
def Steady (m : Emit Unit) : Prop :=
  ∀ k, (∃ k', m k = .ok () k' ∧ k'.level = k.level ∧ k.Extends k') ∨
    ∃ e k', m k = .error e k' ∧ k.level ≤ k'.level ∧ k.Extends k' ∧ e.IsLookup

theorem steady_pure : Steady (pure ()) := fun k => .inl ⟨k, rfl, rfl, k.extends_refl⟩

theorem steady_print (s : String) : Steady (print s) := fun _ => .inl ⟨_, rfl, rfl, s, rfl, trivial⟩

theorem steady_printIndent : Steady printIndent := fun k => .inl ⟨_, rfl, rfl, k.indentation, rfl, trivial⟩

theorem Steady.seq {m n : Emit Unit} (hm : Steady m) (hn : Steady n) : Steady (m >>= fun _ => n) := by
  intro k
  obtain ⟨k', hOk, hLevel, hText⟩ | ⟨e, k', hError, hFailure⟩ := hm k
  · rw [run_bind_of_ok hOk]
    obtain ⟨k'', hOk', hLevel', hText'⟩ | ⟨e, k'', hError', hLevel', hText', hLookup⟩ := hn k'
    · exact .inl ⟨k'', hOk', hLevel'.trans hLevel, hText.trans hText'⟩
    · exact .inr ⟨e, k'', hError', hLevel ▸ hLevel', hText.trans hText', hLookup⟩
  · exact .inr ⟨e, k', run_bind_of_error hError _, hFailure⟩

-- The lines end one level below the sink, so there is a level to leave.
theorem Steady.block {m : Emit Unit} (hm : Steady m) : Steady (do indent; m; outdent) := by
  intro k
  rw [run_bind_of_ok (indent_apply k)]
  obtain ⟨k', hOk, hLevel, hText⟩ | ⟨e, k', hError, hLevel, hText, hLookup⟩ :=
    hm { k with level := k.level + 1 }
  · rw [run_bind_of_ok hOk]
    exact .inl ⟨_, outdent_apply_succ hLevel, rfl, hText⟩
  · exact .inr ⟨e, k', run_bind_of_error hError _, Nat.le_of_succ_le hLevel, hText, hLookup⟩

theorem steady_query {α : Type} {r : Result α} {f : α → Emit Unit} (hr : LooksUp r) (hf : ∀ a, Steady (f a)) :
    Steady (query r >>= f) := by
  intro k
  cases r with
  | ok a => exact hf a k
  | error e => exact .inr ⟨e, k, rfl, Nat.le_refl _, k.extends_refl, hr e rfl⟩

theorem steady_kept : Kept Steady :=
  ⟨steady_pure, steady_print, steady_printIndent, Steady.seq, Steady.block, steady_query⟩

theorem Steady.extends_of_ok {m : Emit Unit} (hm : Steady m) {k k' : Sink} (h : m k = .ok () k') :
    k.Extends k' := by
  obtain ⟨u, hOk, _, hText⟩ | ⟨e, u, hError, _⟩ := hm k
  · cases hOk.symm.trans h
    exact hText
  · cases hError.symm.trans h

/-- Run from the sink, the emission succeeds at the same level or fails at that level or a deeper one, and
not by leaving the first level; the text so far stays in front. -/
def Balances (m : Emit Unit) (k : Sink) : Prop :=
  (∃ k', m k = .ok () k' ∧ k'.level = k.level ∧ k.Extends k') ∨
    ∃ e k', m k = .error e k' ∧ k.level ≤ k'.level ∧ k.Extends k' ∧
      ∀ cause loc, e = .fault cause loc → cause.kind ≠ .indentUnderflow

end Emit

theorem Failure.IsLookup.kind_ne_indentUnderflow {cause : Fault} {loc : Option Location}
    (h : IsLookup (.fault cause loc)) : cause.kind ≠ .indentUnderflow := by
  cases h <;> exact Kind.noConfusion

theorem Emit.Steady.balances {m : Emit Unit} (hm : Steady m) (k : Sink) : m.Balances k := by
  obtain hOk | ⟨e, k', hError, hLevel, hText, hLookup⟩ := hm k
  · exact .inl hOk
  · refine .inr ⟨e, k', hError, hLevel, hText, ?_⟩
    rintro cause loc rfl
    exact hLookup.kind_ne_indentUnderflow

/-- Lowering any expression, and any statement in any form, balances every sink, whatever the scope tree
is. -/
theorem lowering_balances_levels (g : Setting) (k : Sink) :
    (∀ e : Expr, (e.lower g).Balances k) ∧ ∀ (form : Form) (s : Stmt), (s.lower g form).Balances k :=
  ⟨fun e => (Emit.steady_kept.expr g e).balances k, fun form s => (Emit.steady_kept.stmt g form s).balances k⟩

-- A failure inside a function leaves the level of its body.
example :
    (Expr.closure (.mk [] (.returnValue (.identifier "x" (some (.named 0 "x")) none) none) 0) none).lower
        ⟨.empty, {}⟩ ⟨" ", 2, "f = "⟩ =
      .error (.fault (.unresolved "x@0" .reference) none) ⟨" ", 3, "f = function(other) \x7b\n   return ("⟩ := by
  rfl

end TreeLowering

import TreeLowering.Compile
import TreeLowering.Proofs.Emit.Property
import TreeLowering.Proofs.Sequence

/-! # Layout of emitted text

The unit of indentation and the level decide what an indentation prints and nothing else. So an emission
is one list of pieces, and every sink prints them in its own unit and from its own level. -/
namespace TreeLowering
set_option autoImplicit false

/-- A part of emitted text: a text as it is, or the indentation at a depth below the starting level. -/
inductive Piece where
  | text (s : String)
  | indentation (depth : Nat)
deriving DecidableEq

namespace Piece

def render (unit : String) (level : Nat) : Piece → String
  | text s => s
  | indentation depth => String.join (List.replicate (level + depth) unit)

def deeper : Piece → Piece
  | text s => text s
  | indentation depth => indentation (depth + 1)

theorem render_deeper (unit : String) (level : Nat) (p : Piece) :
    p.deeper.render unit level = p.render unit (level + 1) := by
  cases p with
  | text s => rfl
  | indentation depth => simp only [deeper, render, Nat.add_assoc, Nat.add_comm 1 depth]

/-- The text of pieces one after the other. -/
def renderAll (unit : String) (level : Nat) (ps : List Piece) : String := String.join (ps.map (render unit level))

theorem renderAll_append (unit : String) (level : Nat) (ps qs : List Piece) :
    renderAll unit level (ps ++ qs) = renderAll unit level ps ++ renderAll unit level qs := by
  rw [renderAll, List.map_append, String.join_append, renderAll, renderAll]

theorem renderAll_deeper (unit : String) (level : Nat) (ps : List Piece) :
    renderAll unit level (ps.map deeper) = renderAll unit (level + 1) ps := by
  rw [renderAll, List.map_map, renderAll]
  congr 2
  funext p
  exact p.render_deeper unit level

end Piece

namespace Emit

open Piece

/-- The emission appends the pieces, in the unit of the sink and from its level, and leaves the rest of the
sink as it is. -/
def LaysOut (m : Emit Unit) (ps : List Piece) : Prop :=
  ∀ k, m k = .ok () { k with text := k.text ++ renderAll k.unit k.level ps }

/-- The emission fails in the same way from every sink. -/
def FailsWith (m : Emit Unit) (e : Failure) : Prop := ∀ k, ∃ k', m k = .error e k'

/-- Whether the emission succeeds, what it prints and why it fails do not depend on the sink. -/
def LaidOut (m : Emit Unit) : Prop := (∃ ps, LaysOut m ps) ∨ ∃ e, FailsWith m e

theorem laysOut_pure : LaysOut (pure ()) [] := by
  intro k
  simp [renderAll, pure, EStateM.pure]

theorem laysOut_print (s : String) : LaysOut (print s) [.text s] := by
  intro k
  simp [renderAll, render]

theorem laysOut_printIndent : LaysOut printIndent [.indentation 0] := by
  intro k
  simp [renderAll, render, Sink.indentation]

theorem LaysOut.seq {m n : Emit Unit} {ps qs : List Piece} (hm : LaysOut m ps) (hn : LaysOut n qs) :
    LaysOut (m >>= fun _ => n) (ps ++ qs) := by
  intro k
  rw [run_bind_of_ok (hm k), hn, renderAll_append, String.append_assoc]

theorem LaysOut.block {m : Emit Unit} {ps : List Piece} (hm : LaysOut m ps) :
    LaysOut (do indent; m; outdent) (ps.map deeper) := by
  intro k
  simp only [bind, EStateM.bind, indent_apply, hm _, renderAll_deeper]
  exact outdent_apply_succ rfl

theorem FailsWith.seq {m : Emit Unit} {e : Failure} (hm : FailsWith m e) (n : Emit Unit) :
    FailsWith (m >>= fun _ => n) e := by
  intro k
  obtain ⟨k', hError⟩ := hm k
  exact ⟨k', run_bind_of_error hError _⟩

theorem LaysOut.thenFails {m n : Emit Unit} {ps : List Piece} {e : Failure} (hm : LaysOut m ps)
    (hn : FailsWith n e) : FailsWith (m >>= fun _ => n) e := by
  intro k
  obtain ⟨k', hError⟩ := hn { k with text := k.text ++ renderAll k.unit k.level ps }
  exact ⟨k', (run_bind_of_ok (hm k) _).trans hError⟩

theorem FailsWith.block {m : Emit Unit} {e : Failure} (hm : FailsWith m e) :
    FailsWith (do indent; m; outdent) e := by
  intro k
  obtain ⟨k', hError⟩ := hm { k with level := k.level + 1 }
  exact ⟨k', (run_bind_of_ok (indent_apply k) _).trans (run_bind_of_error hError _)⟩

theorem laidOut_kept : Kept LaidOut where
  pure := .inl ⟨_, laysOut_pure⟩
  print s := .inl ⟨_, laysOut_print s⟩
  printIndent := .inl ⟨_, laysOut_printIndent⟩
  seq {m n} hm hn := by
    rcases hm with ⟨ps, hm⟩ | ⟨e, hm⟩
    · rcases hn with ⟨qs, hn⟩ | ⟨e, hn⟩
      · exact .inl ⟨_, hm.seq hn⟩
      · exact .inr ⟨e, hm.thenFails hn⟩
    · exact .inr ⟨e, hm.seq n⟩
  block hm := by
    rcases hm with ⟨ps, hm⟩ | ⟨e, hm⟩
    · exact .inl ⟨_, hm.block⟩
    · exact .inr ⟨e, hm.block⟩
  query {α r f} _ h := by
    cases r with
    | ok a => exact h a
    | error e => exact .inr ⟨e, fun k => ⟨k, rfl⟩⟩

end Emit

open Piece

theorem Program.lower_laidOut (p : Program) (t : Tree) (options : Options) :
    (∃ ps, ∀ unit, p.lower t { options with indent := unit } = .ok (renderAll unit 0 ps)) ∨
      ∃ e, ∀ unit, p.lower t { options with indent := unit } = .error e := by
  rcases Emit.laidOut_kept.lowerModule ⟨t, options.runtime⟩ p with ⟨ps, hPieces⟩ | ⟨e, hError⟩
  · refine .inl ⟨ps, fun unit => ?_⟩
    rw [Program.lower, hPieces]
    simp [Sink.empty, pure, Except.pure]
  · refine .inr ⟨e, fun unit => ?_⟩
    obtain ⟨k, hRun⟩ := hError (Sink.empty unit)
    rw [Program.lower, hRun]
    rfl

theorem Document.compile_laidOut (d : Document) (registry : Registry) (options : Options) :
    (∃ ps, ∀ unit, d.compile registry { options with indent := unit } = .ok (renderAll unit 0 ps)) ∨
      ∃ e, ∀ unit, d.compile registry { options with indent := unit } = .error e := by
  have hTree (unit : String) : d.scopeTree registry { options with indent := unit } =
      d.scopeTree registry options := rfl
  simp only [Document.compile, hTree]
  cases d.scopeTree registry options with
  | error e => exact .inr ⟨e, fun _ => rfl⟩
  | ok t => exact d.program.lower_laidOut t options

/-- Lowering an expression or a statement prints one list of pieces in every sink, or fails in the same
way in all of them; so compilations that differ in the unit of indentation fail with the same error, or
their texts are the same pieces. -/
theorem lowering_prints_fixed_pieces :
    (∀ (g : Setting) (e : Expr), (e.lower g).LaidOut) ∧
      (∀ (g : Setting) (form : Form) (s : Stmt), (s.lower g form).LaidOut) ∧
      ∀ (d : Document) (registry : Registry) (options : Options),
        (∃ ps, ∀ unit, d.compile registry { options with indent := unit } = .ok (renderAll unit 0 ps)) ∨
          ∃ e, ∀ unit, d.compile registry { options with indent := unit } = .error e :=
  ⟨Emit.laidOut_kept.expr, Emit.laidOut_kept.stmt, Document.compile_laidOut⟩

end TreeLowering

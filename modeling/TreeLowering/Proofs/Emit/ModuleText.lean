import TreeLowering.Compile
import TreeLowering.Proofs.Emit.Balance

/-! # Module texts are no documents

Emissions only append, so a module text starts with its envelope. That is no JSON, so a module that is
written over a document cannot be loaded as one. -/
namespace TreeLowering
set_option autoImplicit false

namespace Program

open Emit

theorem lowerModule_text {p : Program} {g : Setting} {unit : String} {k : Sink}
    (h : p.lowerModule g (Sink.empty unit) = .ok () k) : ∃ s, k.text = "define(" ++ s := by
  have hR := steady_kept.congruence
  obtain ⟨_, u, hPrint, hRest⟩ := exists_of_run_eq_ok h
  cases hPrint
  have hSteady (strict globals runtime closing : String) : Steady (do
      braced (do line strict; line globals; line runtime; g.localAllocation p.scope; lowerStmts g p.body) true
      print closing) :=
    (hR.seq (hR.braced (hR.seq (hR.line _) (hR.seq (hR.line _) (hR.seq (hR.line _)
      (hR.seq ⟨steady_kept.localAllocation g p.scope, rfl⟩ ⟨steady_kept.stmts g p.body, rfl⟩)))) true)
      (hR.print _)).1
  obtain ⟨s, hs, _⟩ := (hSteady _ _ _ _).extends_of_ok hRest
  exact ⟨"function(require) \x7b\n" ++ s, hs.trans (by rw [← String.append_assoc]; rfl)⟩

end Program

namespace Document

theorem compile_text {d : Document} {registry : Registry} {options : Options} {text : String}
    (h : d.compile registry options = .ok text) : ∃ s, text = "define(" ++ s := by
  obtain ⟨t, _, hLower⟩ := exists_of_bind_eq_ok h
  rw [Program.lower] at hLower
  split at hLower
  · rename_i hRun
    cases hLower
    exact Program.lowerModule_text hRun
  · cases hLower

theorem load_define (s file : String) (d : Document) : load ("define(" ++ s) file ≠ .ok d := by
  intro h
  have hRead : Json.read ("define(" ++ s).toList = (.broken, []) := by
    rw [String.toList_append]
    rfl
  rw [load, Decoder.load, hRead] at h
  cases h

/-- The module text of a document is not the text of a document. -/
theorem load_compile {d e : Document} {registry : Registry} {options : Options} {text file : String}
    (h : d.compile registry options = .ok text) : load text file ≠ .ok e := by
  obtain ⟨s, rfl⟩ := compile_text h
  exact load_define s file e

end Document
end TreeLowering

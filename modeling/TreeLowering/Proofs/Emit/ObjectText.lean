import Mathlib.Data.List.Forall2
import TreeLowering.Proofs.Emit.Layout

/-! # The text of object declarations

What an emission appends depends on the unit and the level of its sink, and not on the text in front of
it. So the text of an object is put together from the texts of its functions, each taken from a sink of
its own. -/
namespace TreeLowering
set_option autoImplicit false

open Piece

namespace Emit

/-! ## Appended text -/

/-- Run from the sink, the emission appends the text and leaves the rest of the sink as it is. -/
def PrintsFrom (m : Emit Unit) (k : Sink) (text : String) : Prop := m k = .ok () { k with text := k.text ++ text }

variable {m n : Emit Unit} {k : Sink} {text : String}

theorem LaysOut.printsFrom_iff {ps : List Piece} (h : LaysOut m ps) :
    m.PrintsFrom k text ↔ text = renderAll k.unit k.level ps := by
  rw [PrintsFrom, h k]
  constructor
  · intro hRun
    simpa using hRun.symm
  · rintro rfl
    rfl

theorem FailsWith.not_printsFrom {e : Failure} (h : FailsWith m e) : ¬m.PrintsFrom k text := by
  intro hRun
  obtain ⟨k', hError⟩ := h k
  cases hError.symm.trans hRun

theorem LaidOut.run_eq_ok_iff (h : LaidOut m) {k' : Sink} :
    m k = .ok () k' ↔ ∃ text, m.PrintsFrom k text ∧ k' = { k with text := k.text ++ text } := by
  constructor
  · intro hRun
    obtain ⟨ps, hm⟩ | ⟨e, hm⟩ := h
    · exact ⟨_, hm k, by simpa using hRun.symm.trans (hm k)⟩
    · obtain ⟨k₁, hError⟩ := hm k
      cases hError.symm.trans hRun
  · rintro ⟨text, hPrints, rfl⟩
    exact hPrints

/-- The text in front makes no difference. -/
theorem LaidOut.printsFrom_iff_fresh (h : LaidOut m) :
    m.PrintsFrom k text ↔ m (.atLevel k.unit k.level) = .ok () ⟨k.unit, k.level, text⟩ := by
  have hFresh : m.PrintsFrom (.atLevel k.unit k.level) text ↔
      m (.atLevel k.unit k.level) = .ok () ⟨k.unit, k.level, text⟩ := by
    rw [PrintsFrom, Sink.atLevel, String.empty_append]
  rw [← hFresh]
  obtain ⟨ps, hm⟩ | ⟨e, hm⟩ := h
  · rw [hm.printsFrom_iff, hm.printsFrom_iff]
    rfl
  · exact iff_of_false hm.not_printsFrom hm.not_printsFrom

theorem printsFrom_pure_iff : (pure () : Emit Unit).PrintsFrom k text ↔ text = "" := laysOut_pure.printsFrom_iff

theorem printsFrom_print_iff {s : String} : (print s).PrintsFrom k text ↔ text = s := by
  rw [(laysOut_print s).printsFrom_iff]
  simp [renderAll, render]

theorem printsFrom_printIndent_iff : printIndent.PrintsFrom k text ↔ text = k.indentation := by
  rw [laysOut_printIndent.printsFrom_iff]
  simp [renderAll, render, Sink.indentation]

theorem LaidOut.printsFrom_seq_iff (hm : LaidOut m) (hn : LaidOut n) :
    (m >>= fun _ => n).PrintsFrom k text ↔ ∃ s t, m.PrintsFrom k s ∧ n.PrintsFrom k t ∧ s ++ t = text := by
  obtain ⟨ps, hm⟩ | ⟨e, hm⟩ := hm
  · obtain ⟨qs, hn⟩ | ⟨e, hn⟩ := hn
    · simp only [(hm.seq hn).printsFrom_iff, hm.printsFrom_iff, hn.printsFrom_iff, renderAll_append]
      constructor
      · rintro rfl
        exact ⟨_, _, rfl, rfl, rfl⟩
      · rintro ⟨_, _, rfl, rfl, rfl⟩
        rfl
    · refine iff_of_false (hm.thenFails hn).not_printsFrom ?_
      rintro ⟨_, _, _, hText, _⟩
      exact hn.not_printsFrom hText
  · refine iff_of_false (hm.seq n).not_printsFrom ?_
    rintro ⟨_, _, hText, _⟩
    exact hm.not_printsFrom hText

theorem LaidOut.printsFrom_print_seq_iff (hn : LaidOut n) {s : String} :
    (print s >>= fun _ => n).PrintsFrom k text ↔ ∃ t, n.PrintsFrom k t ∧ s ++ t = text := by
  simp only [(laidOut_kept.print s).printsFrom_seq_iff hn, printsFrom_print_iff, exists_and_left, exists_eq_left]

theorem LaidOut.printsFrom_seq_print_iff (hm : LaidOut m) {s : String} :
    (m >>= fun _ => print s).PrintsFrom k text ↔ ∃ t, m.PrintsFrom k t ∧ t ++ s = text := by
  simp only [hm.printsFrom_seq_iff (laidOut_kept.print s), printsFrom_print_iff, exists_and_left, exists_eq_left]

theorem LaidOut.printsFrom_printIndent_seq_iff (hn : LaidOut n) :
    (printIndent >>= fun _ => n).PrintsFrom k text ↔ ∃ t, n.PrintsFrom k t ∧ k.indentation ++ t = text := by
  simp only [laidOut_kept.printIndent.printsFrom_seq_iff hn, printsFrom_printIndent_iff, exists_and_left,
    exists_eq_left]

theorem LaidOut.line_seq (hn : LaidOut n) (s : String) : (do printIndent; print s; n).LaidOut :=
  laidOut_kept.seq laidOut_kept.printIndent (laidOut_kept.seq (laidOut_kept.print s) hn)

theorem LaidOut.printsFrom_line_seq_iff (hn : LaidOut n) {s : String} :
    (do printIndent; print s; n).PrintsFrom k text ↔ ∃ t, n.PrintsFrom k t ∧ k.indentation ++ s ++ t = text := by
  rw [(laidOut_kept.seq (laidOut_kept.print s) hn).printsFrom_printIndent_seq_iff]
  simp only [hn.printsFrom_print_seq_iff, exists_exists_and_eq_and, String.append_assoc]

theorem LaidOut.printsFrom_block_iff (hm : LaidOut m) :
    (do indent; m; outdent).PrintsFrom k text ↔ m.PrintsFrom { k with level := k.level + 1 } text := by
  obtain ⟨ps, hm⟩ | ⟨e, hm⟩ := hm
  · rw [hm.block.printsFrom_iff, hm.printsFrom_iff, renderAll_deeper]
  · exact iff_of_false hm.block.not_printsFrom hm.not_printsFrom

theorem LaidOut.printsFrom_braced_iff (hm : LaidOut m) :
    (braced m false).PrintsFrom k text ↔
      ∃ t, m.PrintsFrom { k with level := k.level + 1 } t ∧ t ++ (k.indentation ++ "\x7d") = text := by
  have hEnd := laidOut_kept.print "\x7d"
  rw [braced_eq, indentUnless, if_neg Bool.false_ne_true, (laidOut_kept.block hm).printsFrom_seq_iff
    (laidOut_kept.seq laidOut_kept.printIndent hEnd)]
  simp only [hm.printsFrom_block_iff, hEnd.printsFrom_printIndent_seq_iff, printsFrom_print_iff, exists_eq_left,
    exists_and_left, exists_eq_left']

theorem LaidOut.printsFrom_statement_iff (hm : LaidOut m) {omitTerminator : Bool} :
    (statement ⟨omitTerminator, false⟩ m).PrintsFrom k text ↔
      ∃ t, m.PrintsFrom k t ∧ k.indentation ++ t ++ (if omitTerminator then "" else ";\n") = text := by
  rw [statement, indentUnless, if_neg Bool.false_ne_true]
  cases omitTerminator with
  | true =>
    rw [if_pos rfl, bind_pure_unit, hm.printsFrom_printIndent_seq_iff]
    simp
  | false =>
    rw [if_neg Bool.false_ne_true, (laidOut_kept.seq hm (laidOut_kept.print _)).printsFrom_printIndent_seq_iff]
    simp [hm.printsFrom_seq_print_iff, String.append_assoc]

end Emit

/-! ## Members of a prototype -/

def Method.entry : Method → String × Function
  | .mk name fn => (name, fn)

namespace Contract

variable (r : Contract)

/-- The members of an object in the order they are printed in: the initializer of its properties, the hooks
it has, and its methods. -/
def objectMembers (init : Function) (create destroy : Option Function) (methods : List Method) :
    List (String × Function) :=
  (r.initPropertiesMethod, init) :: (create.toList.map (r.createMethod, ·)
    ++ (destroy.toList.map (r.destroyMethod, ·) ++ methods.map Method.entry))

/-- The line that opens the registration of an object. -/
def registrationLine (name parent : String) : String :=
  r.runtimeIdentifier ++ "." ++ r.createObject ++ "(" ++ Quoted.quote name ++ ", " ++ Quoted.quote parent
    ++ ", function() \x7b\n"

/-- The line that assigns the constructor of an object. -/
def constructorLine (name parent : String) : String :=
  r.globalsIdentifier ++ "." ++ name ++ " = function() \x7b " ++ (r.globalsIdentifier ++ "." ++ parent)
    ++ ".apply(this, arguments); \x7d;\n"

/-- The line that makes an object inherit from its parent. -/
def inheritLine (name parent : String) : String :=
  r.runtimeIdentifier ++ "." ++ r.inherit ++ "(" ++ (r.globalsIdentifier ++ "." ++ name) ++ ", "
    ++ (r.globalsIdentifier ++ "." ++ parent) ++ ");\n"

/-- The lines that assign a closure to a member of an object. -/
def memberLines (object member closure : String) : String :=
  r.globalsIdentifier ++ "." ++ object ++ ".prototype." ++ member ++ " = " ++ closure ++ ";\n"

/-- The registration of an object with its members, from the indentation of a level and of the next. -/
def objectText (indentation deeper name parent : String) (members : List (String × String)) : String :=
  r.registrationLine name parent ++ (deeper ++ r.constructorLine name parent)
    ++ (deeper ++ r.inheritLine name parent)
    ++ String.join (members.map fun (member, closure) => deeper ++ r.memberLines name member closure)
    ++ (indentation ++ "\x7d)")

end Contract

namespace Emit

variable {g : Setting} {k : Sink} {text : String} {omitTerminator : Bool}

theorem laidOut_function (fn : Function) : (fn.lower g).LaidOut := by
  have hClosure := laidOut_kept.expr g (.closure fn none)
  rwa [Expr.lower] at hClosure

/-- Members of the prototype of an object, one after the other. -/
def members (g : Setting) (self : String) (ms : List (String × Function)) : Emit Unit :=
  forM ms fun m => member .full self m.1 (m.2.lower g)

theorem members_append (self : String) (ms ns : List (String × Function)) :
    members g self (ms ++ ns) = members g self ms >>= fun _ => members g self ns :=
  List.forM_append

theorem lowerHook_eq (self name : String) (hook : Option Function) :
    lowerHook g ⟨omitTerminator, false⟩ self name hook = members g self (hook.toList.map (name, ·)) := by
  cases hook with
  | none =>
    rw [lowerHook]
    rfl
  | some fn =>
    rw [lowerHook]
    exact (bind_pure _).symm

theorem lowerMethods_eq (self : String) (methods : List Method) :
    lowerMethods g ⟨omitTerminator, false⟩ self methods = members g self (methods.map Method.entry) := by
  induction methods with
  | nil =>
    rw [lowerMethods]
    rfl
  | cons m methods ih =>
    obtain ⟨name, fn⟩ := m
    rw [lowerMethods, ih]
    rfl

theorem objectMembers_eq (self : String) (init : Function) (create destroy : Option Function)
    (methods : List Method) :
    (do
      member ⟨omitTerminator, false⟩ self g.runtime.initPropertiesMethod (init.lower g)
      lowerHook g ⟨omitTerminator, false⟩ self g.runtime.createMethod create
      lowerHook g ⟨omitTerminator, false⟩ self g.runtime.destroyMethod destroy
      lowerMethods g ⟨omitTerminator, false⟩ self methods) =
      members g self (g.runtime.objectMembers init create destroy methods) := by
  rw [lowerHook_eq, lowerHook_eq, lowerMethods_eq, ← members_append, ← members_append]
  rfl

theorem laidOut_member (self : String) (m : String × Function) :
    (member .full self m.1 (m.2.lower g)).LaidOut :=
  (laidOut_kept.seq (laidOut_function m.2) (laidOut_kept.print _)).line_seq _

theorem laidOut_members (self : String) (ms : List (String × Function)) : (members g self ms).LaidOut := by
  induction ms with
  | nil => exact laidOut_kept.pure
  | cons m ms ih => exact laidOut_kept.seq (laidOut_member self m) ih

theorem printsFrom_member_iff {object : String} {m : String × Function} :
    (member .full (g.runtime.globalsIdentifier ++ "." ++ object) m.1 (m.2.lower g)).PrintsFrom k text ↔
      ∃ closure, (m.2.lower g).PrintsFrom k closure ∧
        k.indentation ++ g.runtime.memberLines object m.1 closure = text := by
  have hClosure : (m.2.lower g).LaidOut := laidOut_function m.2
  rw [member, indentUnless, Form.full, if_neg Bool.false_ne_true,
    (laidOut_kept.seq hClosure (laidOut_kept.print _)).printsFrom_line_seq_iff]
  simp only [hClosure.printsFrom_seq_print_iff, exists_exists_and_eq_and, Contract.memberLines, String.append_assoc]

/-- The line groups follow each other, and every closure is printed as from the sink that all of them
start at. -/
theorem printsFrom_members_iff {object : String} {ms : List (String × Function)} :
    (members g (g.runtime.globalsIdentifier ++ "." ++ object) ms).PrintsFrom k text ↔
      ∃ closures, List.Forall₂ (fun m closure => (m.2.lower g).PrintsFrom k closure) ms closures ∧
        String.join (((ms.map Prod.fst).zip closures).map fun (member, closure) =>
          k.indentation ++ g.runtime.memberLines object member closure) = text := by
  induction ms generalizing text with
  | nil =>
    rw [show members g _ [] = pure () from rfl, printsFrom_pure_iff]
    simp [eq_comm]
  | cons m ms ih =>
    rw [show members g _ (m :: ms) = member .full _ m.1 (m.2.lower g) >>= fun _ => members g _ ms from rfl,
      (laidOut_member _ m).printsFrom_seq_iff (laidOut_members _ ms)]
    simp only [printsFrom_member_iff, ih]
    constructor
    · rintro ⟨_, _, ⟨closure, hClosure, rfl⟩, ⟨closures, hClosures, rfl⟩, rfl⟩
      exact ⟨closure :: closures, .cons hClosure hClosures, by simp [String.join_cons]⟩
    · rintro ⟨_, hClosures, rfl⟩
      cases hClosures with
      | cons hClosure hClosures =>
        exact ⟨_, _, ⟨_, hClosure, rfl⟩, ⟨_, hClosures, rfl⟩, by simp [String.join_cons]⟩

/-! ## Objects -/

theorem laidOut_object (name parent : String) (ms : List (String × Function)) :
    (object g ⟨omitTerminator, false⟩ name parent fun self => members g self ms).LaidOut := by
  have hMembers (self : String) := laidOut_members self ms (g := g)
  exact (laidOut_kept.congruence.object rfl _ name parent fun self => ⟨hMembers self, rfl⟩).1

theorem printsFrom_object_iff {name parent : String} {ms : List (String × Function)} :
    (object g ⟨omitTerminator, false⟩ name parent fun self => members g self ms).PrintsFrom k text ↔
      ∃ closures,
        List.Forall₂ (fun m closure => (m.2.lower g).PrintsFrom { k with level := k.level + 1 } closure)
          ms closures ∧
        g.runtime.objectText k.indentation (Sink.indentation { k with level := k.level + 1 }) name parent
          ((ms.map Prod.fst).zip closures) = text := by
  have hMembers := laidOut_members (g.runtime.globalsIdentifier ++ "." ++ name) ms (g := g)
  have hInherit := hMembers.line_seq (g.runtime.inheritLine name parent)
  have hBody := hInherit.line_seq (g.runtime.constructorLine name parent)
  have hBraced : LaidOut (braced _ false) := (laidOut_kept.congruence.braced ⟨hBody, rfl⟩ false).1
  refine Iff.trans (laidOut_kept.seq hBraced (laidOut_kept.print ")")).printsFrom_print_seq_iff ?_
  simp only [hBraced.printsFrom_seq_print_iff, hBody.printsFrom_braced_iff, hInherit.printsFrom_line_seq_iff,
    hMembers.printsFrom_line_seq_iff, printsFrom_members_iff, exists_exists_and_eq_and]
  have hClose : "\x7d" ++ ")" = "\x7d)" := rfl
  simp only [Contract.objectText, Contract.registrationLine, String.append_assoc, hClose]

end Emit

open Emit

/-- Lowering an object with indentation succeeds exactly if each of its functions does from a sink of its
own, one level deeper. What it appends is the opening line, the constructor, the inheritance, one line
group for each member in order, and the closing line. -/
theorem Stmt.object_prints_members_in_order (g : Setting) (omitTerminator : Bool) (name parent : String)
    (init : Function) (create destroy : Option Function) (methods : List Method) (loc : Option Location)
    (k k' : Sink) :
    (Stmt.object name parent init create destroy methods loc).lower g ⟨omitTerminator, false⟩ k = .ok () k' ↔
      ∃ closures,
        List.Forall₂ (fun m closure =>
            m.2.lower g (.atLevel k.unit (k.level + 1)) = .ok () ⟨k.unit, k.level + 1, closure⟩)
          (g.runtime.objectMembers init create destroy methods) closures ∧
        k' = { k with text := k.text ++ (k.indentation
          ++ g.runtime.objectText k.indentation (Sink.atLevel k.unit (k.level + 1)).indentation name parent
            (((g.runtime.objectMembers init create destroy methods).map Prod.fst).zip closures)
          ++ if omitTerminator then "" else ";\n") } := by
  have hObject : LaidOut (Emit.object g ⟨omitTerminator, false⟩ name parent fun self =>
      members g self (g.runtime.objectMembers init create destroy methods)) := laidOut_object ..
  have hStatement := laidOut_kept.stmt g ⟨omitTerminator, false⟩
    (.object name parent init create destroy methods loc)
  have hFresh (fn : Function) (closure : String) : (fn.lower g).PrintsFrom { k with level := k.level + 1 } closure ↔
      fn.lower g (.atLevel k.unit (k.level + 1)) = .ok () ⟨k.unit, k.level + 1, closure⟩ :=
    (laidOut_function fn).printsFrom_iff_fresh
  rw [hStatement.run_eq_ok_iff, Stmt.lower]
  simp only [objectMembers_eq, hObject.printsFrom_statement_iff, printsFrom_object_iff, hFresh,
    exists_exists_and_eq_and]
  rfl

end TreeLowering

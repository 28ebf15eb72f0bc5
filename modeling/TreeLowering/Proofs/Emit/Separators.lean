import TreeLowering.Proofs.Emit.Bracketing
import TreeLowering.Proofs.Target.Separator

/-! # Separators of emitted statements

A statement prints its terminator outside of all brackets, and every other semicolon between brackets or
inside a literal. So in the header of a loop only blocks add separators to the two of the loop. -/
namespace TreeLowering
set_option autoImplicit false

open Target

/-! ## Characters and names -/

/-- A character of an indentation. -/
def Blank (c : Char) : Prop := c.isWhitespace = true

theorem Blank.passed {c : Char} (h : Blank c) : Passed c := by
  simp only [Blank, Char.isWhitespace, Bool.or_eq_true, decide_eq_true_eq] at h
  rcases h with ((rfl | rfl) | rfl) | rfl <;> decide

theorem Spelled.neutral {s : String} (h : Spelled Passed s) : Spelled Neutral s := h.mono fun _ => And.left

theorem Setting.SpelledIn.neutral {g : Setting} (h : g.SpelledIn Passed) : g.SpelledIn Neutral :=
  h.mono fun _ => And.left

/-! ## Emissions and separators -/

namespace Emit

/-- The emission leads from some open brackets to others, past no separator that counts. -/
def Leads (a b : List Bracket) (m : Emit Unit) : Prop := Writes Blank (Tallies a b 0) m

abbrev Flat (m : Emit Unit) : Prop := Leads [] [] m

variable {a b c : List Bracket} {m n : Emit Unit}

theorem Leads.seq (hm : Leads a b m) (hn : Leads b c n) : Leads a c (m >>= fun _ => n) :=
  Writes.seq hm hn fun _ _ => Tallies.append

theorem Leads.tally {i : Nat} (hm : Leads a b m) (hn : Writes Blank (Tallies b c i) n) :
    Writes Blank (Tallies a c i) (m >>= fun _ => n) :=
  Writes.seq hm hn fun _ _ => Tallies.lead

theorem leads_name {s : String} (h : Spelled Passed s) : Leads a a (print s) := .print (.of_passed h)

theorem Balanced.inside (hm : Balanced m) (x : Bracket) (a : List Bracket) : Leads (x :: a) (x :: a) m := by
  intro k k' hUnit hRun
  obtain ⟨hSame, text, hText, hMoves⟩ := hm [] k k' (hUnit.mono fun _ hc => hc.passed.1) hRun
  exact ⟨hSame, text, hText, hMoves.enclosed (List.cons_ne_nil x a)⟩

theorem leads_opening (a : List Bracket) : Leads a (.round :: a) (print "(") := .print fun _ => rfl

theorem leads_closing (a : List Bracket) : Leads (.round :: a) a (print ")") := .print fun _ => rfl

theorem leads_header (a : List Bracket) : Leads (.round :: a) (.curly :: a) (print ") \x7b\n") := .print fun _ => rfl

theorem Balanced.leads_braced (hm : Balanced m) (omitIndentation : Bool) (a : List Bracket) :
    Leads (.curly :: a) a (Emit.braced m omitIndentation) := by
  have hEnd : Leads (.curly :: a) a (print "\x7d") := .print fun _ => rfl
  exact (balanced_indent.inside _ _).seq ((hm.inside _ _).seq ((balanced_outdent.inside _ _).seq
    (((balanced_indentUnless _).inside _ _).seq hEnd)))

/-! ## Shapes -/

theorem Balanced.flat_parens (hm : Balanced m) : Flat (Emit.parens m) :=
  (leads_opening []).seq ((hm.inside _ _).seq (leads_closing []))

/-- All operators but the access to a member open brackets in front of both operands. -/
theorem frame_leads {op : BinaryOp} (h : op ≠ .member) : ∃ a, Leads [] (.round :: a) (print op.frame.1) ∧
    Leads (.round :: a) (.round :: a) (print op.frame.2.1) ∧ Leads (.round :: a) [] (print op.frame.2.2) := by
  cases op with
  | member => exact absurd rfl h
  | intDiv | and =>
    exact ⟨[.round], .print fun _ => rfl, .print fun _ => rfl, .print fun _ => rfl⟩
  | or => exact ⟨[.round, .round], .print fun _ => rfl, .print fun _ => rfl, .print fun _ => rfl⟩
  | xor => exact ⟨[.round, .round, .round], .print fun _ => rfl, .print fun _ => rfl, .print fun _ => rfl⟩
  | _ => exact ⟨[], .print fun _ => rfl, .print fun _ => rfl, .print fun _ => rfl⟩

theorem Balanced.flat_binary {op : BinaryOp} (hOp : op ≠ .member) (hm : Balanced m) (hn : Balanced n) :
    Flat (Emit.binary op m n) := by
  obtain ⟨a, hFirst, hMiddle, hLast⟩ := frame_leads hOp
  exact hFirst.seq ((hm.inside _ a).seq (hMiddle.seq ((hn.inside _ a).seq hLast)))

theorem Flat.member_access (hm : Flat m) (hn : Flat n) : Flat (Emit.binary .member m n) := by
  have hDot : Flat (print ".") := .print fun _ => rfl
  have hNone : Flat (print "") := .print fun _ => rfl
  exact hNone.seq (hm.seq (hDot.seq (hn.seq hNone)))

theorem Balanced.flat_unary (op : UnaryOp) (hm : Balanced m) : Flat (Emit.unary op m) := by
  have hSymbol : Leads [.round] [.round] (print op.symbol) := by
    cases op <;> exact .print fun _ => rfl
  exact (leads_opening []).seq (hSymbol.seq ((hm.inside _ _).seq (leads_closing [])))

theorem Balanced.flat_rawCall {code : String} (hCode : Spelled Passed code) (hm : Balanced m) :
    Flat (Emit.rawCall code m) := by
  have hBetween : Leads [.round] [.round] (print ")(") := .print fun _ => rfl
  exact (leads_opening []).seq ((leads_name hCode).seq (hBetween.seq ((hm.inside _ _).seq (leads_closing []))))

theorem Balanced.flat_guarded (form : Form) {keyword : String} (hKeyword : Spelled Passed keyword)
    {condition lines : Emit Unit} (hCondition : Balanced condition) (hLines : Balanced lines) :
    Flat (Emit.guarded form keyword condition lines) := by
  have hOpening : Leads [] [.round] (print (keyword ++ "(")) :=
    .print (.lead (.of_passed hKeyword) fun _ => rfl)
  exact hOpening.seq ((hCondition.inside _ _).seq ((leads_header []).seq (hLines.leads_braced _ [])))

theorem Balanced.flat_branch (form : Form) {condition yes no : Emit Unit} (hCondition : Balanced condition)
    (hYes : Balanced yes) (hNo : Balanced no) : Flat (Emit.branch form condition yes no) := by
  have hElse : Leads [] [.curly] (print " else \x7b\n") := .print fun _ => rfl
  exact (hCondition.flat_guarded form (passed_nameClass.spelled (by simp)) hYes).seq
    (hElse.seq (hNo.leads_braced _ []))

theorem Balanced.flat_loop (form : Form) {init condition step lines : Emit Unit} (hInit : Balanced init)
    (hCondition : Balanced condition) (hStep : Balanced step) (hLines : Balanced lines) :
    Flat (Emit.loop form init condition step lines) := by
  have hFor : Leads [] [.round] (print "for(") := .print fun _ => rfl
  have hNext : Leads [.round] [.round] (print "; ") := .print fun _ => rfl
  exact hFor.seq ((hInit.inside _ _).seq (hNext.seq ((hCondition.inside _ _).seq (hNext.seq
    ((hStep.inside _ _).seq ((leads_header []).seq (hLines.leads_braced _ [])))))))

theorem Balanced.flat_repeatUntil (form : Form) {lines condition : Emit Unit} (hLines : Balanced lines)
    (hCondition : Balanced condition) : Flat (Emit.repeatUntil form lines condition) := by
  have hDo : Leads [] [.curly] (print "do \x7b\n") := .print fun _ => rfl
  have hWhile : Leads [] [.round, .round] (print " while(!(") := .print fun _ => rfl
  have hEnd : Leads [.round, .round] [] (print "))") := .print fun _ => rfl
  exact hDo.seq ((hLines.leads_braced _ []).seq (hWhile.seq ((hCondition.inside _ _).seq hEnd)))

/-- Every run is one of a statement in that form, around an emission whose text is of that kind. -/
def States (form : Form) (P : String → Prop) (m : Emit Unit) : Prop :=
  -- The emission depends on the run, as some statements read the tree before they print.
  ∀ k k', m k = .ok () k' → ∃ e, Writes Blank P e ∧ statement form e k = .ok () k'

theorem Writes.states {P : String → Prop} (h : Writes Blank P m) (form : Form) :
    States form P (Emit.statement form m) :=
  fun _ _ hRun => ⟨m, h, hRun⟩

theorem States.imp {form : Form} {P Q : String → Prop} (hm : States form P m) (h : ∀ s, P s → Q s) :
    States form Q m := by
  intro k k' hRun
  obtain ⟨e, he, hStatement⟩ := hm k k' hRun
  exact ⟨e, he.imp h, hStatement⟩

theorem States.query {form : Form} {P : String → Prop} {α : Type} {r : Result α} {f : α → Emit Unit}
    (h : ∀ x, r = .ok x → States form P (f x)) : States form P (Emit.query r >>= f) := by
  cases r with
  | ok x => exact h x rfl
  | error e =>
    rintro k k' ⟨⟩

theorem flat_indentUnless (omitted : Bool) : Flat (indentUnless omitted) :=
  .indentUnless (fun _ hBlank => .of_passed (hBlank.mono fun _ => Blank.passed)) omitted

/-- The terminator is all that a flat statement adds. -/
theorem States.tallies {form : Form} (h : States form (Tallies [] [] 0) m) :
    Writes Blank (Tallies [] [] (if form.omitTerminator then 0 else 1)) m := by
  intro k k' hUnit hRun
  obtain ⟨e, he, hStatement⟩ := h k k' hRun
  have hEnd : Writes Blank (Tallies [] [] (if form.omitTerminator then 0 else 1))
      (if form.omitTerminator then Pure.pure () else print ";\n") := by
    split
    · exact .pure fun _ => rfl
    · exact .print fun _ => rfl
  exact (flat_indentUnless _).tally (Leads.tally he hEnd) k k' hUnit hStatement

section

variable {g : Setting} (hg : g.SpelledIn Passed)

include hg

theorem Balanced.flat_functionBody {params : List String} (hParams : ∀ name ∈ params, Spelled Passed name)
    (scope : Nat) {lines : Emit Unit} (hLines : Balanced lines) :
    Flat (Emit.functionBody g params scope lines) := by
  refine (leads_opening []).seq (.query fun names hNames => ?_)
  have hComma : Spelled Passed ", " := by simp [Spelled, Passed, Neutral]
  have hJoined : Spelled Passed (Text.join ", " names) :=
    .join hComma (Setting.spelled_parameterNames hg.tree passed_nameClass hParams hNames)
  exact (leads_name hJoined).seq ((leads_header []).seq
    (((balanced_localAllocation hg.neutral scope).seq hLines).leads_braced _ []))

theorem Balanced.flat_call (isMethod : Bool) (scope : Nat) (loc : Option Location) {callee args : Emit Unit}
    (hCallee : Balanced callee) (hArgs : Balanced args) : Flat (Emit.call g callee args isMethod scope loc) := by
  have hText {a : List Bracket} : ∀ {b text}, g.tree.bindingText b = .ok text → Leads a a (print text) := fun h =>
    leads_name (hg.tree.bindingText passed_nameClass h)
  have hEnd : Leads [.round] [] (do args; print ")") := (hArgs.inside _ _).seq (leads_closing [])
  refine hCallee.flat_parens.seq (.query fun other _ => ?_)
  cases isMethod with
  | true => exact (leads_opening []).seq (.query fun text hOther => (hText hOther).seq hEnd)
  | false =>
    have hCall : Leads [] [.round] (print ".call(") := .print fun _ => rfl
    have hNext : Leads [.round] [.round] (print ", ") := .print fun _ => rfl
    refine .query fun this _ => hCall.seq (.query fun text hThis => ?_)
    exact (hText hThis).seq (hNext.seq (.query fun text hOther => (hText hOther).seq hEnd))

theorem Balanced.states_withEach (form : Form) (scope : Nat) (index all : Reference) (loc : Option Location)
    {lines : Emit Unit} (hLines : Balanced lines) :
    States form (Tallies [] [] 0) (Emit.withEach g form scope index all loc lines) := by
  refine .query fun i hi => .query fun objects hObjects => .query fun this hThis => ?_
  have hIndex := Setting.spelled_referenceText hg.tree passed_nameClass hi
  have hAll := Setting.spelled_referenceText hg.tree passed_nameClass hObjects
  have hSelf := Setting.spelled_innerSelf hg.tree passed_nameClass hThis
  have hFor : Tallies [] [.round] 0 "for(" := fun _ => rfl
  have hZero : Tallies [.round] [.round] 0 " = 0; " := fun _ => rfl
  have hLess : Tallies [.round] [.round] 0 " < " := fun _ => rfl
  have hLength : Tallies [.round] [.round] 0 ".length; " := fun _ => rfl
  have hEnd : Tallies [.round] [.curly] 0 "++) \x7b\n" := fun _ => rfl
  have hHeader := ((((((((hFor.lead (.of_passed hIndex)).lead hZero).lead (.of_passed hIndex)).lead hLess).lead
    (.of_passed hAll)).lead hLength).lead (.of_passed hIndex)).lead hEnd)
  have hPass := hLines.pass form.omitIndentation hSelf.neutral hAll.neutral hIndex.neutral
  exact Writes.states (Leads.seq (.print hHeader) (hPass.leads_braced _ [])) form

theorem Balanced.flat_object (form : Form) {name parent : String} (hName : Spelled Neutral name)
    (hParent : Spelled Neutral parent) {members : String → Emit Unit}
    (hMembers : ∀ self, Spelled Neutral self → Balanced (members self)) :
    Flat (Emit.object g form name parent members) := by
  have hCreate : Spelled Passed (g.runtime.runtimeIdentifier ++ "." ++ g.runtime.createObject) :=
    hg.helper passed_nameClass (hg.runtime _ (by simp [Contract.identifiers]))
  have hHeader : Tallies [] [.curly, .round] 0 (g.runtime.runtimeIdentifier ++ "." ++ g.runtime.createObject ++
      "(" ++ Quoted.quote name ++ ", " ++ Quoted.quote parent ++ ", function() \x7b\n") :=
    .lead (.lead (.lead (.lead (.lead (.of_passed hCreate) fun _ => rfl) (.quote _ name)) fun _ => rfl)
      (.quote _ parent)) fun _ => rfl
  have hBody := Balanced.registration hg.neutral form.omitIndentation (hg.neutral.global neutral_nameClass hName)
    (hg.neutral.global neutral_nameClass hParent) (hMembers _ (hg.neutral.global neutral_nameClass hName))
  exact Leads.seq (.print hHeader) ((hBody.leads_braced _ _).seq (leads_closing []))

end

end Emit

/-! ## Every node -/

section

open Emit

variable {g : Setting} (hg : g.SpelledIn Passed)

include hg

theorem lowerIndexes_flat (es : List Expr) (h : ∀ s ∈ exprsSpellings es, Spelled Neutral s) :
    Flat (lowerIndexes g es) := by
  induction es with
  | nil => exact .pure fun _ => rfl
  | cons e rest ih =>
    rw [exprsSpellings, List.forall_mem_append] at h
    have hOpen : Leads [] [.square] (print "[") := .print fun _ => rfl
    have hClose : Leads [.square] [] (print "]") := .print fun _ => rfl
    exact hOpen.seq (((e.lower_balanced hg.neutral h.1).inside _ _).seq (hClose.seq (ih h.2)))

theorem Function.lowerBody_flat (fn : Function) (h : ∀ s ∈ fn.spellings, Spelled Passed s) :
    Flat (fn.lowerBody g) := by
  cases fn with
  | mk params body scope =>
    rw [Function.spellings, List.forall_mem_append] at h
    exact Balanced.flat_functionBody hg h.1 scope (body.lower_balanced hg.neutral .full fun s hs => (h.2 s hs).neutral)

theorem Function.lower_flat (fn : Function) (h : ∀ s ∈ fn.spellings, Spelled Passed s) : Flat (fn.lower g) := by
  have hKeyword : Flat (print "function") := .print fun _ => rfl
  have hBody := fn.lowerBody_flat hg h
  cases fn with
  | mk params body scope => exact hKeyword.seq hBody

theorem Expr.lower_flat (e : Expr) (h : ∀ s ∈ e.spellings, Spelled Passed s) : Flat (e.lower g) := by
  have hNeutral : ∀ s ∈ e.spellings, Spelled Neutral s := fun s hs => (h s hs).neutral
  match e with
  | .identifier name ref _ =>
    refine .query fun text hText => leads_name ?_
    exact Setting.spelled_identifierText hg.tree passed_nameClass (h name List.mem_cons_self) hText
  | .binary op left right _ =>
    rw [Expr.spellings, List.forall_mem_append] at h hNeutral
    rcases eq_or_ne op .member with rfl | hOp
    · exact (left.lower_flat h.1).member_access (right.lower_flat h.2)
    · exact (left.lower_balanced hg.neutral hNeutral.1).flat_binary hOp (right.lower_balanced hg.neutral hNeutral.2)
  | .unary op operand _ => exact (operand.lower_balanced hg.neutral hNeutral).flat_unary op
  | .number value _ => exact (balanced_print (neutral_literal value)).flat_parens
  | .string value _ => exact .print (.quote [] value)
  | .index base indexes _ =>
    rw [Expr.spellings, List.forall_mem_append] at hNeutral
    exact (base.lower_balanced hg.neutral hNeutral.1).flat_parens.seq (lowerIndexes_flat hg indexes hNeutral.2)
  | .call callee args isMethod scope loc =>
    rw [Expr.spellings, List.forall_mem_append] at hNeutral
    exact Balanced.flat_call hg isMethod scope loc (callee.lower_balanced hg.neutral hNeutral.1)
      (lowerFurther_balanced hg.neutral args hNeutral.2)
  | .closure fn _ => exact fn.lower_flat hg h
  | .rawCall code args _ =>
    rw [Expr.spellings, List.forall_mem_cons] at h hNeutral
    exact (lowerArgs_balanced hg.neutral args hNeutral.2).flat_rawCall h.1
  | .raw code _ => exact leads_name (h code List.mem_cons_self)

theorem Declarator.lower_flat (d : Declarator) (h : ∀ s ∈ d.spellings, Spelled Passed s) : Flat (d.lower g) := by
  match d with
  | .mk name none ref =>
    exact .query fun text hText =>
      leads_name (Setting.spelled_declaredName hg.tree (h name List.mem_cons_self) hText)
  | .mk name (some value) ref =>
    rw [Declarator.spellings, List.forall_mem_cons] at h
    have hEquals : Flat (print " = ") := .print fun _ => rfl
    refine .query fun text hText => ?_
    exact (leads_name (Setting.spelled_declaredName hg.tree h.1 hText)).seq (hEquals.seq (value.lower_flat hg h.2))

theorem lowerDeclarators_flat (ds : List Declarator) (h : ∀ s ∈ declaratorsSpellings ds, Spelled Passed s) :
    Flat (lowerDeclarators g ds) := by
  match ds with
  | [] => exact .pure fun _ => rfl
  | [d] =>
    rw [declaratorsSpellings, List.forall_mem_append] at h
    exact d.lower_flat hg h.1
  | d :: e :: rest =>
    rw [declaratorsSpellings, List.forall_mem_append] at h
    have hComma : Flat (print ", ") := .print fun _ => rfl
    exact (d.lower_flat hg h.1).seq (hComma.seq (lowerDeclarators_flat (e :: rest) h.2))

end

/-! ## Terminators -/

mutual
/-- How many terminators the statement prints outside of all brackets. The statements of a block are
always printed on lines of their own. -/
def Stmt.terminators (form : Form) : Stmt → Nat
  | .block body _ => stmtsTerminators body
  | .nop _ => 0
  | _ => if form.omitTerminator then 0 else 1

def stmtsTerminators : List Stmt → Nat
  | [] => 0
  | s :: rest => s.terminators .full + stmtsTerminators rest
end

def Stmt.isSplice : Stmt → Bool
  | .block .. | .nop _ => true
  | _ => false

theorem Stmt.terminators_of_not_splice {s : Stmt} (h : s.isSplice = false) (form : Form) :
    s.terminators form = if form.omitTerminator then 0 else 1 := by
  cases s with
  | block | nop => cases h
  | _ => rfl

section

open Emit

variable {g : Setting}

theorem Stmt.lower_states_flat (hg : g.SpelledIn Passed) (form : Form) (s : Stmt) (hKind : s.isSplice = false)
    (h : ∀ text ∈ s.spellings, Spelled Passed text) : States form (Tallies [] [] 0) (s.lower g form) := by
  have hNames := hg.neutral
  have hNeutral : ∀ text ∈ s.spellings, Spelled Neutral text := fun text hText => (h text hText).neutral
  -- What stands between brackets only has to be well bracketed; the rest has to be flat itself.
  cases s with
  | block | nop => cases hKind
  | declare declarators _ =>
    have hVar : Flat (print "var ") := .print fun _ => rfl
    exact Writes.states (hVar.seq (lowerDeclarators_flat hg declarators h)) form
  | assign left right _ =>
    rw [Stmt.spellings, List.forall_mem_append] at h
    have hEquals : Flat (print " = ") := .print fun _ => rfl
    exact Writes.states ((left.lower_flat hg h.1).seq (hEquals.seq (right.lower_flat hg h.2))) form
  | define name fn _ =>
    rw [Stmt.spellings, List.forall_mem_cons] at h
    have hHead : Flat (print (g.runtime.globalsIdentifier ++ "." ++ name ++ " = function")) :=
      .print (.lead (.of_passed (hg.global passed_nameClass h.1)) fun _ => rfl)
    exact Writes.states (hHead.seq (fn.lowerBody_flat hg h.2)) form
  | constant name value _ =>
    rw [Stmt.spellings, List.forall_mem_cons] at h
    have hHead : Flat (print (g.runtime.globalsIdentifier ++ "." ++ name ++ " = ")) :=
      .print (.lead (.of_passed (hg.global passed_nameClass h.1)) fun _ => rfl)
    exact Writes.states (hHead.seq (value.lower_flat hg h.2)) form
  | switch subject clauses _ =>
    rw [Stmt.spellings, List.forall_mem_append] at hNeutral
    exact Writes.states ((subject.lower_balanced hNames hNeutral.1).flat_guarded form
      (passed_nameClass.spelled (by simp)) (lowerClauses_balanced hNames clauses hNeutral.2)) form
  | loop init condition step body _ =>
    simp only [Stmt.spellings, List.forall_mem_append] at hNeutral
    obtain ⟨hInit, hCondition, hStep, hBody⟩ := hNeutral
    exact Writes.states ((init.lower_balanced hNames .inline hInit).flat_loop form
      (condition.lower_balanced hNames hCondition) (step.lower_balanced hNames .inline hStep)
      (body.lower_balanced hNames .full hBody)) form
  | when condition body _ =>
    rw [Stmt.spellings, List.forall_mem_append] at hNeutral
    exact Writes.states ((condition.lower_balanced hNames hNeutral.1).flat_branch form
      (body.lower_balanced hNames .full hNeutral.2) balanced_pure) form
  | branch condition yes no _ =>
    simp only [Stmt.spellings, List.forall_mem_append] at hNeutral
    obtain ⟨hCondition, hYes, hNo⟩ := hNeutral
    exact Writes.states ((condition.lower_balanced hNames hCondition).flat_branch form
      (yes.lower_balanced hNames .full hYes) (no.lower_balanced hNames .full hNo)) form
  | repeatWhile condition body _ =>
    rw [Stmt.spellings, List.forall_mem_append] at hNeutral
    exact Writes.states ((condition.lower_balanced hNames hNeutral.1).flat_guarded form
      (passed_nameClass.spelled (by simp)) (body.lower_balanced hNames .full hNeutral.2)) form
  | repeatUntil body condition _ =>
    rw [Stmt.spellings, List.forall_mem_append] at hNeutral
    exact Writes.states ((body.lower_balanced hNames .full hNeutral.1).flat_repeatUntil form
      (condition.lower_balanced hNames hNeutral.2)) form
  | breakLoop | continueLoop | exit => exact Writes.states (.print fun _ => rfl) form
  | withEach subject body scope index all loc =>
    exact Balanced.states_withEach hg form scope index all loc (body.lower_balanced hNames .full hNeutral)
  | returnValue value _ =>
    have hReturn : Flat (print "return ") := .print fun _ => rfl
    exact Writes.states (hReturn.seq (value.lower_balanced hNames hNeutral).flat_parens) form
  | object name parent init create destroy methods _ =>
    simp only [Stmt.spellings, List.forall_mem_cons, List.forall_mem_append] at hNeutral
    obtain ⟨hName, hParent, hInit, hCreate, hDestroy, hMethods⟩ := hNeutral
    refine Writes.states (Balanced.flat_object hg form hName hParent fun self hSelf => ?_) form
    exact .members hNames form hSelf (init.lower_balanced hNames hInit)
      (fun _ hHook => lowerHook_balanced hNames form hSelf hHook create hCreate)
      (fun _ hHook => lowerHook_balanced hNames form hSelf hHook destroy hDestroy)
      (lowerMethods_balanced hNames form hSelf methods hMethods)
  | call callee args isMethod scope loc =>
    rw [Stmt.spellings, List.forall_mem_append] at hNeutral
    exact Writes.states (Balanced.flat_call hg isMethod scope loc (callee.lower_balanced hNames hNeutral.1)
      (lowerFurther_balanced hNames args hNeutral.2)) form
  | rawCall code args _ =>
    rw [Stmt.spellings, List.forall_mem_cons] at h hNeutral
    exact Writes.states ((lowerArgs_balanced hNames args hNeutral.2).flat_rawCall h.1) form

mutual
theorem Stmt.lower_tallies (hg : g.SpelledIn Passed) (form : Form) (s : Stmt)
    (h : ∀ text ∈ s.spellings, Spelled Passed text) :
    Writes Blank (Tallies [] [] (s.terminators form)) (s.lower g form) := by
  match s with
  | .block body _ => exact lowerStmts_tallies hg body h
  | .nop _ => exact .pure fun _ => rfl
  | .declare .. | .assign .. | .define .. | .constant .. | .switch .. | .loop .. | .when .. | .branch ..
  | .repeatWhile .. | .repeatUntil .. | .breakLoop _ | .continueLoop _ | .withEach .. | .returnValue ..
  | .exit _ | .object .. | .call .. | .rawCall .. => exact (Stmt.lower_states_flat hg form _ rfl h).tallies

theorem lowerStmts_tallies (hg : g.SpelledIn Passed) (ss : List Stmt)
    (h : ∀ text ∈ stmtsSpellings ss, Spelled Passed text) :
    Writes Blank (Tallies [] [] (stmtsTerminators ss)) (lowerStmts g ss) := by
  match ss with
  | [] => exact .pure fun _ => rfl
  | s :: rest =>
    rw [stmtsSpellings, List.forall_mem_append] at h
    exact (s.lower_tallies hg .full h.1).seq (lowerStmts_tallies hg rest h.2) fun _ _ => Tallies.append
end

end

/-! ## Headers of loops -/

/-- The text starts with the header of a loop, which has that many separators. -/
def HasHeader (n : Nat) (text : String) : Prop :=
  ∃ init condition step after, text = "for(" ++ (init ++ "; " ++ condition ++ "; " ++ step) ++ ") \x7b\n" ++ after ∧
    Separated n (init ++ "; " ++ condition ++ "; " ++ step)

namespace Emit

theorem Writes.pair {P Q : String → Prop} {m n : Emit Unit} (hm : Writes Blank P m) (hn : Writes Blank Q n) :
    Writes Blank (fun text => ∃ s t, text = s ++ t ∧ P s ∧ Q t) (m >>= fun _ => n) :=
  hm.seq hn fun s t hs ht => ⟨s, t, rfl, hs, ht⟩

/-- The header has the two separators of the loop and those of its two statements. -/
theorem writes_loop (form : Form) {init condition step lines : Emit Unit} {i j : Nat}
    (hInit : Writes Blank (Tallies [] [] i) init) (hCondition : Flat condition)
    (hStep : Writes Blank (Tallies [] [] j) step) (hLines : Balanced lines) :
    Writes Blank (HasHeader (i + j + 2)) (Emit.loop form init condition step lines) := by
  have hPrint (s : String) : Writes Blank (fun text => text = s) (print s) := .print rfl
  have hSemicolon : Tallies [] [] 1 "; " := fun _ => rfl
  have hParts := (hPrint "for(").pair (hInit.pair ((hPrint "; ").pair (hCondition.pair ((hPrint "; ").pair
    (hStep.pair ((hPrint ") \x7b\n").pair (hLines.leads_braced form.omitIndentation [])))))))
  refine hParts.imp ?_
  rintro _ ⟨_, _, rfl, rfl, a, _, rfl, ha, _, _, rfl, rfl, c, _, rfl, hc, _, _, rfl, rfl, b, _, rfl, hb, _, after,
    rfl, rfl, _⟩
  refine ⟨a, c, b, after, by simp only [String.append_assoc], ?_⟩
  have hHeader := (((ha.append hSemicolon).append hc).append hSemicolon).append hb
  rw [show i + j + 2 = i + 1 + 0 + 1 + j by omega]
  exact hHeader.separated

end Emit
end TreeLowering

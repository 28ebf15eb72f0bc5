import TreeLowering.Proofs.Program.Faults

/-! # Positions reach failures only

A position is copied into a failure and nowhere else. So a document without its positions compiles to the
same text, or fails with the same cause. -/
namespace TreeLowering
set_option autoImplicit false

/-! ## Nodes without positions -/

mutual
def Expr.unlocated : Expr → Expr
  | .identifier name ref _ => .identifier name ref none
  | .binary op left right _ => .binary op left.unlocated right.unlocated none
  | .unary op operand _ => .unary op operand.unlocated none
  | .number value _ => .number value none
  | .string value _ => .string value none
  | .index base indexes _ => .index base.unlocated (unlocatedExprs indexes) none
  | .call callee args isMethod scope _ => .call callee.unlocated (unlocatedExprs args) isMethod scope none
  | .closure fn _ => .closure fn.unlocated none
  | .rawCall code args _ => .rawCall code (unlocatedExprs args) none
  | .raw code _ => .raw code none

def unlocatedExprs : List Expr → List Expr
  | [] => []
  | e :: rest => e.unlocated :: unlocatedExprs rest

def Function.unlocated : Function → Function
  | .mk params body scope => .mk params body.unlocated scope

def unlocatedFunction? : Option Function → Option Function
  | some fn => some fn.unlocated
  | none => none

def Stmt.unlocated : Stmt → Stmt
  | .declare declarators _ => .declare (unlocatedDeclarators declarators) none
  | .assign left right _ => .assign left.unlocated right.unlocated none
  | .define name fn _ => .define name fn.unlocated none
  | .constant name value _ => .constant name value.unlocated none
  | .switch subject clauses _ => .switch subject.unlocated (unlocatedClauses clauses) none
  | .loop init condition step body _ =>
    .loop init.unlocated condition.unlocated step.unlocated body.unlocated none
  | .when condition body _ => .when condition.unlocated body.unlocated none
  | .branch condition yes no _ => .branch condition.unlocated yes.unlocated no.unlocated none
  | .repeatWhile condition body _ => .repeatWhile condition.unlocated body.unlocated none
  | .repeatUntil body condition _ => .repeatUntil body.unlocated condition.unlocated none
  | .breakLoop _ => .breakLoop none
  | .continueLoop _ => .continueLoop none
  | .block body _ => .block (unlocatedStmts body) none
  | .withEach subject body scope index all _ =>
    .withEach subject.unlocated body.unlocated scope index all none
  | .returnValue value _ => .returnValue value.unlocated none
  | .exit _ => .exit none
  | .object name parent init create destroy methods _ =>
    .object name parent init.unlocated (unlocatedFunction? create) (unlocatedFunction? destroy)
      (unlocatedMethods methods) none
  | .nop _ => .nop none
  | .call callee args isMethod scope _ => .call callee.unlocated (unlocatedExprs args) isMethod scope none
  | .rawCall code args _ => .rawCall code (unlocatedExprs args) none

def unlocatedStmts : List Stmt → List Stmt
  | [] => []
  | s :: rest => s.unlocated :: unlocatedStmts rest

def Declarator.unlocated : Declarator → Declarator
  | .mk name (some value) ref => .mk name (some value.unlocated) ref
  | .mk name none ref => .mk name none ref

def unlocatedDeclarators : List Declarator → List Declarator
  | [] => []
  | d :: rest => d.unlocated :: unlocatedDeclarators rest

def Clause.unlocated : Clause → Clause
  | .case value body => .case value.unlocated body.unlocated
  | .default body => .default body.unlocated

def unlocatedClauses : List Clause → List Clause
  | [] => []
  | c :: rest => c.unlocated :: unlocatedClauses rest

def unlocatedMethods : List Method → List Method
  | [] => []
  | .mk name fn :: rest => .mk name fn.unlocated :: unlocatedMethods rest
end

def Program.unlocated (p : Program) : Program := ⟨unlocatedStmts p.body, p.scope⟩

def Document.unlocated (d : Document) : Document := ⟨d.scopes, d.program.unlocated⟩

def Failure.unlocated : Failure → Failure
  | .fault cause _ => .fault cause none
  | .outOfRange => .outOfRange

theorem Failure.IsPlain.unlocated_eq {e : Failure} (h : e.IsPlain) : e.unlocated = e := by
  obtain ⟨cause, rfl⟩ := h
  rfl

/-! ## Answers of a setting -/

/-- The result carries no position. -/
def Unplaced {α : Type} (r : Result α) : Prop := r.mapError Failure.unlocated = r

section

variable {α β : Type}

theorem Unplaced.bind {r : Result α} {f : α → Result β} (hr : Unplaced r) (hf : ∀ a, Unplaced (f a)) :
    Unplaced (r >>= f) := by
  cases r with
  | ok a => exact hf a
  | error e => exact congrArg Except.error (Except.error.inj hr)

theorem Unplaced.mapM {f : α → Result β} (hf : ∀ a, Unplaced (f a)) (xs : List α) : Unplaced (xs.mapM f) := by
  induction xs with
  | nil => rfl
  | cons x xs ih =>
    rw [List.mapM_cons]
    exact (hf x).bind fun _ => ih.bind fun _ => rfl

end

namespace Tree

variable (t : Tree)

theorem unplaced_checked {α : Type} (s : Nat) (a : α) : Unplaced (do t.checkScope s; pure a) := by
  rw [checkScope]
  split <;> rfl

theorem unplaced_resolveReference (ref : Reference) : Unplaced (t.resolveReference ref) := by
  rw [resolveReference]
  split
  · split <;> rfl
  · rfl

theorem unplaced_variableOf (b : Nat) : Unplaced (t.variableOf b) := by
  rw [variableOf]
  split <;> rfl

theorem unplaced_targetIdentifier (b : Nat) : Unplaced (t.targetIdentifier b) := by
  apply (t.unplaced_variableOf b).bind
  intro v
  split <;> rfl

theorem unplaced_bindingText (b : Nat) : Unplaced (t.bindingText b) := by
  apply (t.unplaced_targetIdentifier b).bind
  intro name
  apply (t.unplaced_variableOf b).bind
  intro v
  split <;> rfl

end Tree

namespace Setting

variable (g : Setting)

theorem unplaced_referenceText (ref : Reference) : Unplaced (g.referenceText ref) :=
  (g.tree.unplaced_resolveReference ref).bind g.tree.unplaced_bindingText

theorem unplaced_identifierText (name : String) (ref : Option Reference) :
    Unplaced (g.identifierText name ref) := by
  cases ref with
  | none => rfl
  | some ref => exact g.unplaced_referenceText ref

theorem unplaced_declaredName (name : String) (ref : Option Reference) : Unplaced (g.declaredName name ref) := by
  cases ref with
  | none => rfl
  | some ref => exact (g.tree.unplaced_resolveReference ref).bind g.tree.unplaced_targetIdentifier

theorem unplaced_localTargetOrName (s : Nat) (name : String) : Unplaced (g.localTargetOrName s name) := by
  apply (g.tree.unplaced_checked s (g.tree.named? s name)).bind
  intro found
  cases found with
  | none => rfl
  | some b => exact g.tree.unplaced_targetIdentifier b

theorem unplaced_parameterNames (params : List String) (s : Nat) : Unplaced (g.parameterNames params s) :=
  .mapM (g.unplaced_localTargetOrName s) _

theorem unplaced_localNames (s : Nat) : Unplaced (g.localNames s) := by
  apply (g.tree.unplaced_checked s (g.tree.functionScope s)).bind
  intro f
  apply (g.tree.unplaced_checked f (g.tree.hoisted f)).bind
  intro bs
  exact .mapM g.tree.unplaced_targetIdentifier bs

/-- The position of a call is told if a receiver is missing, and only then. -/
theorem receiver_unlocated (s : Nat) (name : String) (loc : Option Location) :
    g.receiver s name none = (g.receiver s name loc).mapError Failure.unlocated := by
  rw [receiver, receiver, Tree.checkScope]
  split
  · simp only [bind, Except.bind, pure, Except.pure]
    cases g.tree.nearest? s name <;> rfl
  · rfl

theorem innerSelf_unlocated (s : Nat) (loc : Option Location) :
    g.innerSelf s none = (g.innerSelf s loc).mapError Failure.unlocated := by
  rw [innerSelf, innerSelf, Tree.lookupLocal, Tree.checkScope]
  split
  · simp only [bind, Except.bind, pure, Except.pure]
    cases g.tree.named? s selfName with
    | none => rfl
    | some b => exact (g.tree.unplaced_bindingText b).symm
  · rfl

end Setting

/-! ## Emissions without positions -/

namespace Emit

variable {α : Type}

/-- The emission with the position of its failure dropped. -/
def unlocated (m : Emit α) : Emit α := fun k =>
  match m k with
  | .ok a k' => .ok a k'
  | .error e k' => .error e.unlocated k'

theorem unlocated_bind {β : Type} (m : Emit α) (f : α → Emit β) :
    (m >>= f).unlocated = m.unlocated >>= fun a => (f a).unlocated := by
  funext k
  simp only [unlocated, bind, EStateM.bind]
  cases m k <;> rfl

theorem unlocated_query (r : Result α) : (query r).unlocated = query (r.mapError Failure.unlocated) := by
  cases r <;> rfl

theorem unlocated_query_of_unplaced {r : Result α} (h : Unplaced r) : (query r).unlocated = query r := by
  rw [unlocated_query, h]

theorem unlocated_print (s : String) : (print s).unlocated = print s := rfl

theorem unlocated_indent : indent.unlocated = indent := rfl

theorem unlocated_outdent : outdent.unlocated = outdent := by
  funext ⟨unit, level, text⟩
  cases level <;> rfl

theorem unlocated_congruence : Congruence fun m m' => m' = m.unlocated where
  pure := rfl
  print _ := rfl
  printIndent := rfl
  seq := by
    rintro m _ n _ rfl rfl
    rw [unlocated_bind]
  block := by
    rintro m _ rfl
    simp only [unlocated_bind, unlocated_indent, unlocated_outdent]

theorem unlocated_printFound {r : Result String} (h : Unplaced r) : printFound r = (printFound r).unlocated := by
  rw [printFound, unlocated_bind, unlocated_query_of_unplaced h]
  rfl

variable (g : Setting)

theorem unlocated_localAllocation (s : Nat) : g.localAllocation s = (g.localAllocation s).unlocated := by
  rw [Setting.localAllocation, unlocated_bind, unlocated_query_of_unplaced (g.unplaced_localNames s)]
  congr
  funext names
  split <;> rfl

theorem unlocated_functionBody (params : List String) (s : Nat) (lines : Emit Unit) :
    functionBody g params s lines.unlocated = (functionBody g params s lines).unlocated := by
  have hLines : (do g.localAllocation s; lines.unlocated) = (do g.localAllocation s; lines).unlocated := by
    rw [unlocated_bind, ← unlocated_localAllocation]
  rw [functionBody, functionBody, hLines, unlocated_congruence.braced rfl]
  simp only [unlocated_bind, unlocated_print, unlocated_query_of_unplaced (g.unplaced_parameterNames params s)]

theorem unlocated_call (callee args : Emit Unit) (isMethod : Bool) (s : Nat) (loc : Option Location) :
    Emit.call g callee.unlocated args.unlocated isMethod s none =
      (Emit.call g callee args isMethod s loc).unlocated := by
  have hText (b : Nat) := unlocated_query_of_unplaced (g.tree.unplaced_bindingText b)
  rw [Emit.call, Emit.call, unlocated_congruence.parens rfl]
  simp only [unlocated_bind, unlocated_query, g.receiver_unlocated s _ loc]
  congr
  funext _
  congr
  funext other
  cases isMethod with
  | true => simp only [if_true, unlocated_bind, unlocated_print, hText]
  | false =>
    simp only [Bool.false_eq_true, if_false, unlocated_bind, unlocated_print, hText, unlocated_query]

theorem unlocated_withEach (form : Form) (s : Nat) (index all : Reference) (loc : Option Location)
    (lines : Emit Unit) :
    Emit.withEach g form s index all none lines.unlocated =
      (Emit.withEach g form s index all loc lines).unlocated := by
  have hR := unlocated_congruence
  have hReference (ref : Reference) := unlocated_query_of_unplaced (g.unplaced_referenceText ref)
  simp only [Emit.withEach, unlocated_bind, hReference, unlocated_query, g.innerSelf_unlocated s loc]
  congr
  funext i
  congr
  funext objects
  congr
  funext this
  exact hR.statement form (hR.seq (hR.print _)
    (hR.braced (hR.seq (hR.indentUnless _) (hR.seq (hR.print _) rfl)) _))

end Emit

open Emit

section

variable (g : Setting)

mutual
theorem Expr.lower_unlocated (e : Expr) : e.unlocated.lower g = (e.lower g).unlocated := by
  match e with
  | .identifier name ref _ => exact unlocated_printFound (g.unplaced_identifierText name ref)
  | .binary op left right _ =>
    exact unlocated_congruence.binary op left.lower_unlocated right.lower_unlocated
  | .unary op operand _ => exact unlocated_congruence.unary op operand.lower_unlocated
  | .number value _ => exact unlocated_congruence.parens (unlocated_congruence.print _)
  | .string value _ => exact unlocated_congruence.print _
  | .index base indexes _ =>
    exact unlocated_congruence.seq (unlocated_congruence.parens base.lower_unlocated)
      (lowerIndexes_unlocated indexes)
  | .call callee args isMethod scope loc =>
    rw [Expr.unlocated, Expr.lower, Expr.lower, callee.lower_unlocated, lowerFurther_unlocated args]
    exact unlocated_call g _ _ isMethod scope loc
  | .closure fn _ => exact fn.lower_unlocated
  | .rawCall code args _ => exact unlocated_congruence.rawCall code (lowerArgs_unlocated args)
  | .raw code _ => exact unlocated_congruence.print code

theorem lowerIndexes_unlocated (es : List Expr) :
    lowerIndexes g (unlocatedExprs es) = (lowerIndexes g es).unlocated := by
  match es with
  | [] => exact unlocated_congruence.pure
  | e :: rest =>
    exact unlocated_congruence.seq (unlocated_congruence.print _) (unlocated_congruence.seq e.lower_unlocated
      (unlocated_congruence.seq (unlocated_congruence.print _) (lowerIndexes_unlocated rest)))

theorem lowerFurther_unlocated (es : List Expr) :
    lowerFurther g (unlocatedExprs es) = (lowerFurther g es).unlocated := by
  match es with
  | [] => exact unlocated_congruence.pure
  | e :: rest =>
    exact unlocated_congruence.seq (unlocated_congruence.print _)
      (unlocated_congruence.seq e.lower_unlocated (lowerFurther_unlocated rest))

theorem lowerArgs_unlocated (es : List Expr) : lowerArgs g (unlocatedExprs es) = (lowerArgs g es).unlocated := by
  match es with
  | [] => exact unlocated_congruence.pure
  | e :: rest => exact unlocated_congruence.seq e.lower_unlocated (lowerFurther_unlocated rest)

theorem Function.lowerBody_unlocated (fn : Function) : fn.unlocated.lowerBody g = (fn.lowerBody g).unlocated := by
  match fn with
  | .mk params body scope =>
    rw [Function.unlocated, Function.lowerBody, Function.lowerBody, body.lower_unlocated]
    exact unlocated_functionBody g params scope _

theorem Function.lower_unlocated (fn : Function) : fn.unlocated.lower g = (fn.lower g).unlocated := by
  match fn with
  | .mk params body scope =>
    rw [Function.unlocated, Function.lower, Function.lower, body.lower_unlocated]
    exact unlocated_congruence.seq (unlocated_congruence.print _) (unlocated_functionBody g params scope _)

theorem Stmt.lower_unlocated (form : Form) (s : Stmt) :
    s.unlocated.lower g form = (s.lower g form).unlocated := by
  have hR := unlocated_congruence
  match s with
  | .declare declarators _ =>
    exact hR.statement form (hR.seq (hR.print _) (lowerDeclarators_unlocated declarators))
  | .assign left right _ =>
    exact hR.statement form (hR.seq left.lower_unlocated (hR.seq (hR.print _) right.lower_unlocated))
  | .define name fn _ => exact hR.statement form (hR.seq (hR.print _) fn.lowerBody_unlocated)
  | .constant name value _ => exact hR.statement form (hR.seq (hR.print _) value.lower_unlocated)
  | .switch subject clauses _ =>
    exact hR.statement form (hR.guarded form "switch" subject.lower_unlocated (lowerClauses_unlocated clauses))
  | .loop init condition step body _ =>
    exact hR.statement form (hR.loop form (init.lower_unlocated .inline) condition.lower_unlocated
      (step.lower_unlocated .inline) (body.lower_unlocated .full))
  | .when condition body _ =>
    exact hR.statement form (hR.branch form condition.lower_unlocated (body.lower_unlocated .full) hR.pure)
  | .branch condition yes no _ =>
    exact hR.statement form
      (hR.branch form condition.lower_unlocated (yes.lower_unlocated .full) (no.lower_unlocated .full))
  | .repeatWhile condition body _ =>
    exact hR.statement form (hR.guarded form "while" condition.lower_unlocated (body.lower_unlocated .full))
  | .repeatUntil body condition _ =>
    exact hR.statement form (hR.repeatUntil form (body.lower_unlocated .full) condition.lower_unlocated)
  | .breakLoop _ | .continueLoop _ | .exit _ => exact hR.statement form (hR.print _)
  | .block body _ => exact lowerStmts_unlocated body
  | .withEach subject body scope index all loc =>
    rw [Stmt.unlocated, Stmt.lower, Stmt.lower, body.lower_unlocated]
    exact unlocated_withEach g form scope index all loc _
  | .returnValue value _ => exact hR.statement form (hR.seq (hR.print _) (hR.parens value.lower_unlocated))
  | .object name parent init create destroy methods _ =>
    exact hR.statement form (hR.object rfl form name parent fun self =>
      hR.seq (hR.member form self _ init.lower_unlocated)
        (hR.seq (lowerHook_unlocated form self _ create)
          (hR.seq (lowerHook_unlocated form self _ destroy) (lowerMethods_unlocated form self methods))))
  | .nop _ => exact hR.pure
  | .call callee args isMethod scope loc =>
    rw [Stmt.unlocated, Stmt.lower, Stmt.lower, callee.lower_unlocated, lowerFurther_unlocated args]
    exact hR.statement form (unlocated_call g _ _ isMethod scope loc)
  | .rawCall code args _ => exact hR.statement form (hR.rawCall code (lowerArgs_unlocated args))

theorem lowerStmts_unlocated (ss : List Stmt) :
    lowerStmts g (unlocatedStmts ss) = (lowerStmts g ss).unlocated := by
  match ss with
  | [] => exact unlocated_congruence.pure
  | s :: rest => exact unlocated_congruence.seq (s.lower_unlocated .full) (lowerStmts_unlocated rest)

theorem Declarator.lower_unlocated (d : Declarator) : d.unlocated.lower g = (d.lower g).unlocated := by
  match d with
  | .mk name none ref => exact unlocated_printFound (g.unplaced_declaredName name ref)
  | .mk name (some value) ref =>
    rw [Declarator.unlocated, Declarator.lower, Declarator.lower, ← printFound_seq, ← printFound_seq]
    exact unlocated_congruence.seq (unlocated_printFound (g.unplaced_declaredName name ref))
      (unlocated_congruence.seq (unlocated_congruence.print _) value.lower_unlocated)

theorem lowerDeclarators_unlocated (ds : List Declarator) :
    lowerDeclarators g (unlocatedDeclarators ds) = (lowerDeclarators g ds).unlocated := by
  match ds with
  | [] => exact unlocated_congruence.pure
  | [d] => exact d.lower_unlocated
  | d :: e :: rest =>
    exact unlocated_congruence.seq d.lower_unlocated
      (unlocated_congruence.seq (unlocated_congruence.print _) (lowerDeclarators_unlocated (e :: rest)))

theorem Clause.lower_unlocated (c : Clause) : c.unlocated.lower g = (c.lower g).unlocated := by
  match c with
  | .case value body =>
    exact unlocated_congruence.clause
      (unlocated_congruence.seq (unlocated_congruence.print _) (unlocated_congruence.parens value.lower_unlocated))
      (body.lower_unlocated .full)
  | .default body => exact unlocated_congruence.clause (unlocated_congruence.print _) (body.lower_unlocated .full)

theorem lowerClauses_unlocated (cs : List Clause) :
    lowerClauses g (unlocatedClauses cs) = (lowerClauses g cs).unlocated := by
  match cs with
  | [] => exact unlocated_congruence.pure
  | c :: rest => exact unlocated_congruence.seq c.lower_unlocated (lowerClauses_unlocated rest)

theorem lowerHook_unlocated (form : Form) (self name : String) (fn : Option Function) :
    lowerHook g form self name (unlocatedFunction? fn) = (lowerHook g form self name fn).unlocated := by
  match fn with
  | none => exact unlocated_congruence.pure
  | some fn => exact unlocated_congruence.member form self name fn.lower_unlocated

theorem lowerMethods_unlocated (form : Form) (self : String) (ms : List Method) :
    lowerMethods g form self (unlocatedMethods ms) = (lowerMethods g form self ms).unlocated := by
  match ms with
  | [] => exact unlocated_congruence.pure
  | .mk name fn :: rest =>
    exact unlocated_congruence.seq (unlocated_congruence.member form self name fn.lower_unlocated)
      (lowerMethods_unlocated form self rest)
end

end

/-! ## Checks without positions -/

def Mention.unlocated : Mention → Mention
  | scope id _ => scope id none
  | reference ref _ => reference ref none

theorem Mention.ofReference?_unlocated (ref : Option Reference) (loc : Option Location) :
    ofReference? ref none = (ofReference? ref loc).map unlocated := by
  cases ref <;> rfl

mutual
theorem Expr.mentions_unlocated (e : Expr) : e.unlocated.mentions = e.mentions.map Mention.unlocated := by
  match e with
  | .number .. | .string .. | .raw .. => rfl
  | .identifier name ref loc => exact Mention.ofReference?_unlocated ref loc
  | .binary op left right _ =>
    simp only [Expr.unlocated, Expr.mentions, List.map_append, left.mentions_unlocated, right.mentions_unlocated]
  | .unary op operand _ => exact operand.mentions_unlocated
  | .index base indexes _ =>
    simp only [Expr.unlocated, Expr.mentions, List.map_append, base.mentions_unlocated,
      exprsMentions_unlocated indexes]
  | .call callee args _ _ _ =>
    simp only [Expr.unlocated, Expr.mentions, List.map_cons, List.map_append, callee.mentions_unlocated,
      exprsMentions_unlocated args, Mention.unlocated]
  | .closure fn loc => exact fn.mentions_unlocated loc
  | .rawCall code args _ => exact exprsMentions_unlocated args

theorem exprsMentions_unlocated (es : List Expr) :
    exprsMentions (unlocatedExprs es) = (exprsMentions es).map Mention.unlocated := by
  match es with
  | [] => rfl
  | e :: rest =>
    simp only [unlocatedExprs, exprsMentions, List.map_append, e.mentions_unlocated,
      exprsMentions_unlocated rest]

theorem Function.mentions_unlocated (fn : Function) (loc : Option Location) :
    fn.unlocated.mentions none = (fn.mentions loc).map Mention.unlocated := by
  match fn with
  | .mk params body scope =>
    simp only [Function.unlocated, Function.mentions, List.map_cons, body.mentions_unlocated, Mention.unlocated]

theorem functionMentions?_unlocated (fn : Option Function) (loc : Option Location) :
    functionMentions? none (unlocatedFunction? fn) = (functionMentions? loc fn).map Mention.unlocated := by
  match fn with
  | none => rfl
  | some fn => exact fn.mentions_unlocated loc

theorem Stmt.mentions_unlocated (s : Stmt) : s.unlocated.mentions = s.mentions.map Mention.unlocated := by
  match s with
  | .breakLoop _ | .continueLoop _ | .exit _ | .nop _ => rfl
  | .declare declarators loc => exact declaratorsMentions_unlocated declarators loc
  | .assign left right _ =>
    simp only [Stmt.unlocated, Stmt.mentions, List.map_append, left.mentions_unlocated, right.mentions_unlocated]
  | .define name fn loc => exact fn.mentions_unlocated loc
  | .constant name value _ | .returnValue value _ => exact value.mentions_unlocated
  | .switch subject clauses _ =>
    simp only [Stmt.unlocated, Stmt.mentions, List.map_append, subject.mentions_unlocated,
      clausesMentions_unlocated clauses]
  | .loop init condition step body _ =>
    simp only [Stmt.unlocated, Stmt.mentions, List.map_append, init.mentions_unlocated,
      condition.mentions_unlocated, step.mentions_unlocated, body.mentions_unlocated]
  | .when condition body _ | .repeatWhile condition body _ | .repeatUntil body condition _ =>
    simp only [Stmt.unlocated, Stmt.mentions, List.map_append, condition.mentions_unlocated,
      body.mentions_unlocated]
  | .branch condition yes no _ =>
    simp only [Stmt.unlocated, Stmt.mentions, List.map_append, condition.mentions_unlocated,
      yes.mentions_unlocated, no.mentions_unlocated]
  | .block body _ => exact stmtsMentions_unlocated body
  | .withEach subject body scope index all loc =>
    simp only [Stmt.unlocated, Stmt.mentions, List.map_append, List.map_cons, List.map_nil,
      subject.mentions_unlocated, body.mentions_unlocated, Mention.unlocated]
  | .object name parent init create destroy methods loc =>
    simp only [Stmt.unlocated, Stmt.mentions, List.map_append, init.mentions_unlocated loc,
      functionMentions?_unlocated create loc, functionMentions?_unlocated destroy loc,
      methodsMentions_unlocated methods loc]
  | .call callee args _ _ _ =>
    simp only [Stmt.unlocated, Stmt.mentions, List.map_cons, List.map_append, callee.mentions_unlocated,
      exprsMentions_unlocated args, Mention.unlocated]
  | .rawCall code args _ => exact exprsMentions_unlocated args

theorem stmtsMentions_unlocated (ss : List Stmt) :
    stmtsMentions (unlocatedStmts ss) = (stmtsMentions ss).map Mention.unlocated := by
  match ss with
  | [] => rfl
  | s :: rest =>
    simp only [unlocatedStmts, stmtsMentions, List.map_append, s.mentions_unlocated,
      stmtsMentions_unlocated rest]

theorem declaratorsMentions_unlocated (ds : List Declarator) (loc : Option Location) :
    declaratorsMentions none (unlocatedDeclarators ds) = (declaratorsMentions loc ds).map Mention.unlocated := by
  match ds with
  | [] => rfl
  | .mk name none ref :: rest =>
    simp only [unlocatedDeclarators, Declarator.unlocated, declaratorsMentions, Declarator.mentions,
      List.map_append, ← Mention.ofReference?_unlocated ref loc, declaratorsMentions_unlocated rest loc]
  | .mk name (some value) ref :: rest =>
    simp only [unlocatedDeclarators, Declarator.unlocated, declaratorsMentions, Declarator.mentions,
      List.map_append, ← Mention.ofReference?_unlocated ref loc, value.mentions_unlocated,
      declaratorsMentions_unlocated rest loc]

theorem clausesMentions_unlocated (cs : List Clause) :
    clausesMentions (unlocatedClauses cs) = (clausesMentions cs).map Mention.unlocated := by
  match cs with
  | [] => rfl
  | .case value body :: rest =>
    simp only [unlocatedClauses, Clause.unlocated, clausesMentions, Clause.mentions, List.map_append,
      value.mentions_unlocated, body.mentions_unlocated, clausesMentions_unlocated rest]
  | .default body :: rest =>
    simp only [unlocatedClauses, Clause.unlocated, clausesMentions, Clause.mentions, List.map_append,
      body.mentions_unlocated, clausesMentions_unlocated rest]

theorem methodsMentions_unlocated (ms : List Method) (loc : Option Location) :
    methodsMentions none (unlocatedMethods ms) = (methodsMentions loc ms).map Mention.unlocated := by
  match ms with
  | [] => rfl
  | .mk name fn :: rest =>
    simp only [unlocatedMethods, methodsMentions, Method.mentions, List.map_append,
      fn.mentions_unlocated loc, methodsMentions_unlocated rest loc]
end

namespace Program

theorem validate_unlocated (p : Program) (t : Tree) :
    p.unlocated.validate t = (p.validate t).mapError Failure.unlocated := by
  have hMentions : p.unlocated.mentions = p.mentions.map Mention.unlocated := by
    rw [mentions, mentions, unlocated, stmtsMentions_unlocated]
    rfl
  rw [validate, validate, hMentions]
  generalize p.mentions = ms
  induction ms with
  | nil => rfl
  | cons m ms ih =>
    have hCheck : m.unlocated.check t = (m.check t).mapError Failure.unlocated := by
      have hExists : m.unlocated.existsIn t = m.existsIn t := by cases m <;> rfl
      rw [Mention.check, Mention.check, hExists]
      split
      · rfl
      · cases m <;> rfl
    have hCons (m : Mention) (ms : List Mention) :
        (m :: ms).forM (Mention.check t) = m.check t >>= fun _ => ms.forM (Mention.check t) := rfl
    rw [List.map_cons, hCons, hCons, hCheck]
    cases m.check t with
    | ok _ => exact ih
    | error e => rfl

theorem lower_unlocated (p : Program) (t : Tree) (options : Options) :
    p.unlocated.lower t options = (p.lower t options).mapError Failure.unlocated := by
  have hModule (g : Setting) : p.unlocated.lowerModule g = (p.lowerModule g).unlocated := by
    have hR := unlocated_congruence
    refine hR.seq (hR.print _) (hR.seq (hR.braced ?_ true) (hR.print _))
    exact hR.seq (hR.line _) (hR.seq (hR.line _) (hR.seq (hR.line _)
      (hR.seq (unlocated_localAllocation g p.scope) (lowerStmts_unlocated g p.body))))
  rw [lower, lower, hModule, Emit.unlocated]
  cases p.lowerModule ⟨t, options.runtime⟩ (Sink.empty options.indent) <;> rfl

end Program

namespace Document

theorem scopeTree_unlocated (d : Document) (registry : Registry) (options : Options) :
    d.unlocated.scopeTree registry options = (d.scopeTree registry options).mapError Failure.unlocated := by
  rw [scopeTree_eq, scopeTree_eq]
  cases hGlobals : Tree.ofGlobals registry options.extraGlobals options.runtime.globalsIdentifier with
  | error e =>
    have hPlain := Tree.failsPlainly_ofGlobals _ _ _ e hGlobals
    exact congrArg Except.error hPlain.unlocated_eq.symm
  | ok globals =>
    simp only [Except.bind, Edit.finish, grow, unlocated, bind, EStateM.bind, Edit.inspect]
    cases hAttach : ScopeDecl.attachAll d.scopes globals with
    | error e u =>
      have hPlain := (ScopeDecl.attachAll_safe d.scopes).plain trivial hAttach
      exact congrArg Except.error hPlain.unlocated_eq.symm
    | ok _ attached =>
      simp only [d.program.validate_unlocated]
      cases d.program.validate attached with
      | error e => rfl
      | ok _ =>
        simp only [Except.mapError]
        cases hAllocate : Tree.allocate attached with
        | error e u =>
          have hPlain := Tree.allocate_safe.plain trivial hAllocate
          exact congrArg Except.error hPlain.unlocated_eq.symm
        | ok _ t => rfl

theorem compile_unlocated (d : Document) (registry : Registry) (options : Options) :
    d.unlocated.compile registry options = (d.compile registry options).mapError Failure.unlocated := by
  rw [compile, compile, scopeTree_unlocated]
  cases d.scopeTree registry options with
  | error e => rfl
  | ok t => exact d.program.lower_unlocated t options

/-- Without its positions a document compiles to the same text, or fails with the same cause, which tells
the level, the kind, the issuer and the message. -/
theorem positions_reach_failures_only (d : Document) (registry : Registry) (options : Options) :
    (∃ text, d.compile registry options = .ok text ∧ d.unlocated.compile registry options = .ok text) ∨
      ∃ cause loc, d.compile registry options = .error (.fault cause loc) ∧
        d.unlocated.compile registry options = .error (.fault cause none) := by
  rw [compile_unlocated]
  cases hCompile : d.compile registry options with
  | ok text => exact .inl ⟨text, rfl, rfl⟩
  | error e =>
    obtain ⟨cause, loc, rfl⟩ := compile_eq_error hCompile
    exact .inr ⟨cause, loc, rfl, rfl⟩

end Document
end TreeLowering

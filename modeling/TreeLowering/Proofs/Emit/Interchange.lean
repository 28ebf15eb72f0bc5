import TreeLowering.Proofs.Scope.Totality

/-! # References to one storage are interchangeable

A reference names a binding or gives its position, and the binding may be an alias of another one. Lowering
reads only the variable at the end of the links, so programs that differ in how they refer to it have the
same text. -/
namespace TreeLowering
set_option autoImplicit false

/-! ## Nodes that differ in references -/

section

variable (R : Reference → Reference → Prop)

mutual
/-- The expressions are equal except that corresponding references are related. -/
inductive Expr.Alike : Expr → Expr → Prop where
  | identifier {ref ref' : Option Reference} (name : String) (loc : Option Location)
    (hRef : Option.Rel R ref ref') : Expr.Alike (.identifier name ref loc) (.identifier name ref' loc)
  | binary {left left' right right' : Expr} (op : BinaryOp) (loc : Option Location)
    (hLeft : Expr.Alike left left') (hRight : Expr.Alike right right') :
    Expr.Alike (.binary op left right loc) (.binary op left' right' loc)
  | unary {operand operand' : Expr} (op : UnaryOp) (loc : Option Location)
    (hOperand : Expr.Alike operand operand') : Expr.Alike (.unary op operand loc) (.unary op operand' loc)
  | number (value : Binary64) (loc : Option Location) : Expr.Alike (.number value loc) (.number value loc)
  | string (value : String) (loc : Option Location) : Expr.Alike (.string value loc) (.string value loc)
  | index {base base' : Expr} {indexes indexes' : List Expr} (loc : Option Location)
    (hBase : Expr.Alike base base') (hIndexes : ExprsAlike indexes indexes') :
    Expr.Alike (.index base indexes loc) (.index base' indexes' loc)
  | call {callee callee' : Expr} {args args' : List Expr} (isMethod : Bool) (scope : Nat)
    (loc : Option Location) (hCallee : Expr.Alike callee callee') (hArgs : ExprsAlike args args') :
    Expr.Alike (.call callee args isMethod scope loc) (.call callee' args' isMethod scope loc)
  | closure {fn fn' : Function} (loc : Option Location) (hFn : Function.Alike fn fn') :
    Expr.Alike (.closure fn loc) (.closure fn' loc)
  | rawCall {args args' : List Expr} (code : String) (loc : Option Location) (hArgs : ExprsAlike args args') :
    Expr.Alike (.rawCall code args loc) (.rawCall code args' loc)
  | raw (code : String) (loc : Option Location) : Expr.Alike (.raw code loc) (.raw code loc)

inductive ExprsAlike : List Expr → List Expr → Prop where
  | nil : ExprsAlike [] []
  | cons {e e' : Expr} {es es' : List Expr} (hHead : Expr.Alike e e') (hTail : ExprsAlike es es') :
    ExprsAlike (e :: es) (e' :: es')

inductive Function.Alike : Function → Function → Prop where
  | mk {body body' : Stmt} (params : List String) (scope : Nat) (hBody : Stmt.Alike body body') :
    Function.Alike (.mk params body scope) (.mk params body' scope)

inductive FunctionAlike? : Option Function → Option Function → Prop where
  | none : FunctionAlike? none none
  | some {fn fn' : Function} (hFn : Function.Alike fn fn') : FunctionAlike? (some fn) (some fn')

inductive Stmt.Alike : Stmt → Stmt → Prop where
  | declare {declarators declarators' : List Declarator} (loc : Option Location)
    (hDeclarators : DeclaratorsAlike declarators declarators') :
    Stmt.Alike (.declare declarators loc) (.declare declarators' loc)
  | assign {left left' right right' : Expr} (loc : Option Location) (hLeft : Expr.Alike left left')
    (hRight : Expr.Alike right right') : Stmt.Alike (.assign left right loc) (.assign left' right' loc)
  | define {fn fn' : Function} (name : String) (loc : Option Location) (hFn : Function.Alike fn fn') :
    Stmt.Alike (.define name fn loc) (.define name fn' loc)
  | constant {value value' : Expr} (name : String) (loc : Option Location) (hValue : Expr.Alike value value') :
    Stmt.Alike (.constant name value loc) (.constant name value' loc)
  | switch {subject subject' : Expr} {clauses clauses' : List Clause} (loc : Option Location)
    (hSubject : Expr.Alike subject subject') (hClauses : ClausesAlike clauses clauses') :
    Stmt.Alike (.switch subject clauses loc) (.switch subject' clauses' loc)
  | loop {init init' step step' body body' : Stmt} {condition condition' : Expr} (loc : Option Location)
    (hInit : Stmt.Alike init init') (hCondition : Expr.Alike condition condition')
    (hStep : Stmt.Alike step step') (hBody : Stmt.Alike body body') :
    Stmt.Alike (.loop init condition step body loc) (.loop init' condition' step' body' loc)
  | when {condition condition' : Expr} {body body' : Stmt} (loc : Option Location)
    (hCondition : Expr.Alike condition condition') (hBody : Stmt.Alike body body') :
    Stmt.Alike (.when condition body loc) (.when condition' body' loc)
  | branch {condition condition' : Expr} {yes yes' no no' : Stmt} (loc : Option Location)
    (hCondition : Expr.Alike condition condition') (hYes : Stmt.Alike yes yes') (hNo : Stmt.Alike no no') :
    Stmt.Alike (.branch condition yes no loc) (.branch condition' yes' no' loc)
  | repeatWhile {condition condition' : Expr} {body body' : Stmt} (loc : Option Location)
    (hCondition : Expr.Alike condition condition') (hBody : Stmt.Alike body body') :
    Stmt.Alike (.repeatWhile condition body loc) (.repeatWhile condition' body' loc)
  | repeatUntil {condition condition' : Expr} {body body' : Stmt} (loc : Option Location)
    (hBody : Stmt.Alike body body') (hCondition : Expr.Alike condition condition') :
    Stmt.Alike (.repeatUntil body condition loc) (.repeatUntil body' condition' loc)
  | breakLoop (loc : Option Location) : Stmt.Alike (.breakLoop loc) (.breakLoop loc)
  | continueLoop (loc : Option Location) : Stmt.Alike (.continueLoop loc) (.continueLoop loc)
  | block {body body' : List Stmt} (loc : Option Location) (hBody : StmtsAlike body body') :
    Stmt.Alike (.block body loc) (.block body' loc)
  | withEach {subject subject' : Expr} {body body' : Stmt} {index index' all all' : Reference} (scope : Nat)
    (loc : Option Location) (hSubject : Expr.Alike subject subject') (hBody : Stmt.Alike body body')
    (hIndex : R index index') (hAll : R all all') :
    Stmt.Alike (.withEach subject body scope index all loc) (.withEach subject' body' scope index' all' loc)
  | returnValue {value value' : Expr} (loc : Option Location) (hValue : Expr.Alike value value') :
    Stmt.Alike (.returnValue value loc) (.returnValue value' loc)
  | exit (loc : Option Location) : Stmt.Alike (.exit loc) (.exit loc)
  | object {init init' : Function} {create create' destroy destroy' : Option Function}
    {methods methods' : List Method} (name parent : String) (loc : Option Location)
    (hInit : Function.Alike init init') (hCreate : FunctionAlike? create create')
    (hDestroy : FunctionAlike? destroy destroy') (hMethods : MethodsAlike methods methods') :
    Stmt.Alike (.object name parent init create destroy methods loc)
      (.object name parent init' create' destroy' methods' loc)
  | nop (loc : Option Location) : Stmt.Alike (.nop loc) (.nop loc)
  | call {callee callee' : Expr} {args args' : List Expr} (isMethod : Bool) (scope : Nat)
    (loc : Option Location) (hCallee : Expr.Alike callee callee') (hArgs : ExprsAlike args args') :
    Stmt.Alike (.call callee args isMethod scope loc) (.call callee' args' isMethod scope loc)
  | rawCall {args args' : List Expr} (code : String) (loc : Option Location) (hArgs : ExprsAlike args args') :
    Stmt.Alike (.rawCall code args loc) (.rawCall code args' loc)

inductive StmtsAlike : List Stmt → List Stmt → Prop where
  | nil : StmtsAlike [] []
  | cons {s s' : Stmt} {ss ss' : List Stmt} (hHead : Stmt.Alike s s') (hTail : StmtsAlike ss ss') :
    StmtsAlike (s :: ss) (s' :: ss')

inductive Declarator.Alike : Declarator → Declarator → Prop where
  | bare {ref ref' : Option Reference} (name : String) (hRef : Option.Rel R ref ref') :
    Declarator.Alike (.mk name none ref) (.mk name none ref')
  | initialized {value value' : Expr} {ref ref' : Option Reference} (name : String)
    (hValue : Expr.Alike value value') (hRef : Option.Rel R ref ref') :
    Declarator.Alike (.mk name (some value) ref) (.mk name (some value') ref')

inductive DeclaratorsAlike : List Declarator → List Declarator → Prop where
  | nil : DeclaratorsAlike [] []
  | cons {d d' : Declarator} {ds ds' : List Declarator} (hHead : Declarator.Alike d d')
    (hTail : DeclaratorsAlike ds ds') : DeclaratorsAlike (d :: ds) (d' :: ds')

inductive Clause.Alike : Clause → Clause → Prop where
  | case {value value' : Expr} {body body' : Stmt} (hValue : Expr.Alike value value')
    (hBody : Stmt.Alike body body') : Clause.Alike (.case value body) (.case value' body')
  | default {body body' : Stmt} (hBody : Stmt.Alike body body') : Clause.Alike (.default body) (.default body')

inductive ClausesAlike : List Clause → List Clause → Prop where
  | nil : ClausesAlike [] []
  | cons {c c' : Clause} {cs cs' : List Clause} (hHead : Clause.Alike c c') (hTail : ClausesAlike cs cs') :
    ClausesAlike (c :: cs) (c' :: cs')

inductive MethodsAlike : List Method → List Method → Prop where
  | nil : MethodsAlike [] []
  | cons {fn fn' : Function} {ms ms' : List Method} (name : String) (hFn : Function.Alike fn fn')
    (hTail : MethodsAlike ms ms') : MethodsAlike (.mk name fn :: ms) (.mk name fn' :: ms')
end

/-- The programs run in one scope, and their statements are alike. -/
structure Program.Alike (p q : Program) : Prop where
  body : StmtsAlike R p.body q.body
  scope : p.scope = q.scope

end

/-! ## The same text -/

/-- The setting answers alike for related references. -/
structure Setting.Equates (g : Setting) (R : Reference → Reference → Prop) : Prop where
  text : ∀ {ref ref' : Reference}, R ref ref' → g.referenceText ref = g.referenceText ref'
  declared : ∀ {ref ref' : Reference}, R ref ref' →
    ∀ name, g.declaredName name (some ref) = g.declaredName name (some ref')

section

variable {R : Reference → Reference → Prop} {g : Setting}

theorem Setting.Equates.identifierText (hg : g.Equates R) {ref ref' : Option Reference} (hRef : Option.Rel R ref ref')
    (name : String) : g.identifierText name ref = g.identifierText name ref' := by
  cases hRef with
  | none => rfl
  | some h => exact hg.text h

theorem Setting.Equates.declaredName (hg : g.Equates R) {ref ref' : Option Reference} (hRef : Option.Rel R ref ref')
    (name : String) : g.declaredName name ref = g.declaredName name ref' := by
  cases hRef with
  | none => rfl
  | some h => exact hg.declared h name

mutual
theorem Expr.Alike.lower_eq (hg : g.Equates R) {e e' : Expr} (h : e.Alike R e') : e.lower g = e'.lower g := by
  match h with
  | .identifier name _ hRef => rw [Expr.lower, Expr.lower, hg.identifierText hRef]
  | .binary op _ hLeft hRight => rw [Expr.lower, Expr.lower, hLeft.lower_eq hg, hRight.lower_eq hg]
  | .unary op _ hOperand => rw [Expr.lower, Expr.lower, hOperand.lower_eq hg]
  | .number .. | .string .. | .raw .. => rfl
  | .index _ hBase hIndexes => rw [Expr.lower, Expr.lower, hBase.lower_eq hg, hIndexes.lowerIndexes_eq hg]
  | .call _ _ _ hCallee hArgs => rw [Expr.lower, Expr.lower, hCallee.lower_eq hg, hArgs.lowerFurther_eq hg]
  | .closure _ hFn => rw [Expr.lower, Expr.lower, hFn.lower_eq hg]
  | .rawCall _ _ hArgs => rw [Expr.lower, Expr.lower, hArgs.lowerArgs_eq hg]

theorem ExprsAlike.lowerIndexes_eq (hg : g.Equates R) {es es' : List Expr} (h : ExprsAlike R es es') :
    lowerIndexes g es = lowerIndexes g es' := by
  match h with
  | .nil => rfl
  | .cons hHead hTail => rw [lowerIndexes, lowerIndexes, hHead.lower_eq hg, hTail.lowerIndexes_eq hg]

theorem ExprsAlike.lowerFurther_eq (hg : g.Equates R) {es es' : List Expr} (h : ExprsAlike R es es') :
    lowerFurther g es = lowerFurther g es' := by
  match h with
  | .nil => rfl
  | .cons hHead hTail => rw [lowerFurther, lowerFurther, hHead.lower_eq hg, hTail.lowerFurther_eq hg]

theorem ExprsAlike.lowerArgs_eq (hg : g.Equates R) {es es' : List Expr} (h : ExprsAlike R es es') :
    lowerArgs g es = lowerArgs g es' := by
  match h with
  | .nil => rfl
  | .cons hHead hTail => rw [lowerArgs, lowerArgs, hHead.lower_eq hg, hTail.lowerFurther_eq hg]

theorem Function.Alike.lower_eq (hg : g.Equates R) {fn fn' : Function} (h : fn.Alike R fn') :
    fn.lower g = fn'.lower g := by
  match h with
  | .mk params scope hBody => rw [Function.lower, Function.lower, hBody.lower_eq hg]

theorem Function.Alike.lowerBody_eq (hg : g.Equates R) {fn fn' : Function} (h : fn.Alike R fn') :
    fn.lowerBody g = fn'.lowerBody g := by
  match h with
  | .mk params scope hBody => rw [Function.lowerBody, Function.lowerBody, hBody.lower_eq hg]

theorem FunctionAlike?.lowerHook_eq (hg : g.Equates R) {fn fn' : Option Function} (h : FunctionAlike? R fn fn')
    (form : Form) (self name : String) : lowerHook g form self name fn = lowerHook g form self name fn' := by
  match h with
  | .none => rfl
  | .some hFn => rw [lowerHook, lowerHook, hFn.lower_eq hg]

theorem Stmt.Alike.lower_eq (hg : g.Equates R) {s s' : Stmt} (h : s.Alike R s') (form : Form) :
    s.lower g form = s'.lower g form := by
  match h with
  | .declare _ hDeclarators => rw [Stmt.lower, Stmt.lower, hDeclarators.lower_eq hg]
  | .assign _ hLeft hRight => rw [Stmt.lower, Stmt.lower, hLeft.lower_eq hg, hRight.lower_eq hg]
  | .define _ _ hFn => rw [Stmt.lower, Stmt.lower, hFn.lowerBody_eq hg]
  | .constant _ _ hValue => rw [Stmt.lower, Stmt.lower, hValue.lower_eq hg]
  | .switch _ hSubject hClauses => rw [Stmt.lower, Stmt.lower, hSubject.lower_eq hg, hClauses.lower_eq hg]
  | .loop _ hInit hCondition hStep hBody =>
    rw [Stmt.lower, Stmt.lower, hInit.lower_eq hg, hCondition.lower_eq hg, hStep.lower_eq hg, hBody.lower_eq hg]
  | .when _ hCondition hBody => rw [Stmt.lower, Stmt.lower, hCondition.lower_eq hg, hBody.lower_eq hg]
  | .branch _ hCondition hYes hNo =>
    rw [Stmt.lower, Stmt.lower, hCondition.lower_eq hg, hYes.lower_eq hg, hNo.lower_eq hg]
  | .repeatWhile _ hCondition hBody => rw [Stmt.lower, Stmt.lower, hCondition.lower_eq hg, hBody.lower_eq hg]
  | .repeatUntil _ hBody hCondition => rw [Stmt.lower, Stmt.lower, hBody.lower_eq hg, hCondition.lower_eq hg]
  | .breakLoop _ | .continueLoop _ | .exit _ | .nop _ => rfl
  | .block _ hBody => rw [Stmt.lower, Stmt.lower, hBody.lower_eq hg]
  | .withEach _ _ _ hBody hIndex hAll =>
    rw [Stmt.lower, Stmt.lower, Emit.withEach, Emit.withEach, hg.text hIndex, hg.text hAll, hBody.lower_eq hg]
  | .returnValue _ hValue => rw [Stmt.lower, Stmt.lower, hValue.lower_eq hg]
  | .object _ _ _ hInit hCreate hDestroy hMethods =>
    simp only [Stmt.lower, hInit.lower_eq hg, hCreate.lowerHook_eq hg, hDestroy.lowerHook_eq hg, hMethods.lower_eq hg]
  | .call _ _ _ hCallee hArgs => rw [Stmt.lower, Stmt.lower, hCallee.lower_eq hg, hArgs.lowerFurther_eq hg]
  | .rawCall _ _ hArgs => rw [Stmt.lower, Stmt.lower, hArgs.lowerArgs_eq hg]

theorem StmtsAlike.lower_eq (hg : g.Equates R) {ss ss' : List Stmt} (h : StmtsAlike R ss ss') :
    lowerStmts g ss = lowerStmts g ss' := by
  match h with
  | .nil => rfl
  | .cons hHead hTail => rw [lowerStmts, lowerStmts, hHead.lower_eq hg, hTail.lower_eq hg]

theorem Declarator.Alike.lower_eq (hg : g.Equates R) {d d' : Declarator} (h : d.Alike R d') :
    d.lower g = d'.lower g := by
  match h with
  | .bare name hRef => rw [Declarator.lower, Declarator.lower, hg.declaredName hRef]
  | .initialized name hValue hRef =>
    rw [Declarator.lower, Declarator.lower, hg.declaredName hRef, hValue.lower_eq hg]

theorem DeclaratorsAlike.lower_eq (hg : g.Equates R) {ds ds' : List Declarator} (h : DeclaratorsAlike R ds ds') :
    lowerDeclarators g ds = lowerDeclarators g ds' := by
  match h with
  | .nil => rfl
  | .cons hHead hTail =>
    have hRest := hTail.lower_eq hg
    cases hTail with
    | nil => exact hHead.lower_eq hg
    | cons => simp only [lowerDeclarators, hHead.lower_eq hg, hRest]

theorem Clause.Alike.lower_eq (hg : g.Equates R) {c c' : Clause} (h : c.Alike R c') : c.lower g = c'.lower g := by
  match h with
  | .case hValue hBody => rw [Clause.lower, Clause.lower, hValue.lower_eq hg, hBody.lower_eq hg]
  | .default hBody => rw [Clause.lower, Clause.lower, hBody.lower_eq hg]

theorem ClausesAlike.lower_eq (hg : g.Equates R) {cs cs' : List Clause} (h : ClausesAlike R cs cs') :
    lowerClauses g cs = lowerClauses g cs' := by
  match h with
  | .nil => rfl
  | .cons hHead hTail => rw [lowerClauses, lowerClauses, hHead.lower_eq hg, hTail.lower_eq hg]

theorem MethodsAlike.lower_eq (hg : g.Equates R) {ms ms' : List Method} (h : MethodsAlike R ms ms') (form : Form)
    (self : String) : lowerMethods g form self ms = lowerMethods g form self ms' := by
  match h with
  | .nil => rfl
  | .cons name hFn hTail => rw [lowerMethods, lowerMethods, hFn.lower_eq hg, hTail.lower_eq hg]
end

theorem Program.Alike.lowerModule_eq (hg : g.Equates R) {p q : Program} (h : p.Alike R q) :
    p.lowerModule g = q.lowerModule g := by
  rw [Program.lowerModule, Program.lowerModule, h.scope, h.body.lower_eq hg]

end

/-! ## One storage -/

namespace Tree

/-- Both references lead to bindings, and the links from these end at the same variable. -/
def SameStorage (t : Tree) (ref ref' : Reference) : Prop :=
  ∃ b b', t.resolveReference ref = .ok b ∧ t.resolveReference ref' = .ok b' ∧ t.resolve b = t.resolve b'

theorem variableOf_eq {t : Tree} {b b' : Nat} (h : t.resolve b = t.resolve b') :
    t.variableOf b = t.variableOf b' := by
  rw [variableOf, variableOf, variableBehind?, variableBehind?, h]

namespace Finished

variable {t : Tree} (h : t.Finished) {b b' : Nat} (hb : b < t.bindings.size) (hSame : t.resolve b = t.resolve b')

include h hb hSame

theorem targetIdentifier_eq : t.targetIdentifier b = t.targetIdentifier b' := by
  -- Only the failure names the binding itself, and a finished tree does not fail.
  obtain ⟨v, name, hv, hName⟩ := h.variableOf hb
  have hv' : t.variableOf b' = .ok v := variableOf_eq hSame ▸ hv
  simp only [Tree.targetIdentifier, hv, hv', hName, Target.name?, bind, Except.bind]

theorem bindingText_eq : t.bindingText b = t.bindingText b' := by
  rw [Tree.bindingText, Tree.bindingText, h.targetIdentifier_eq hb hSame, variableOf_eq hSame]

end Finished

end Tree

theorem Setting.equates_sameStorage {g : Setting} (hg : g.tree.Finished) : g.Equates g.tree.SameStorage where
  text := by
    rintro ref ref' ⟨b, b', hb, hb', hSame⟩
    have hLt := hg.lt_of_mem (Tree.mem_visible_of_reference? (Tree.resolveReference_eq_ok_iff.mp hb))
    rw [referenceText, referenceText, hb, hb']
    exact hg.bindingText_eq hLt hSame
  declared := by
    rintro ref ref' ⟨b, b', hb, hb', hSame⟩ name
    have hLt := hg.lt_of_mem (Tree.mem_visible_of_reference? (Tree.resolveReference_eq_ok_iff.mp hb))
    rw [declaredName, declaredName, hb, hb']
    exact hg.targetIdentifier_eq hLt hSame

namespace Document

/-- In a tree that a document builds, two programs that are equal except that corresponding references lead to
the same storage are lowered to the same text, or fail with the same error. -/
theorem lower_eq_of_sameStorage {d : Document} {registry : Registry} {options : Options} {t : Tree}
    (h : d.scopeTree registry options = .ok t) {p q : Program} (hAlike : p.Alike t.SameStorage q)
    (lowering : Options) : p.lower t lowering = q.lower t lowering := by
  have hEquates := Setting.equates_sameStorage (g := ⟨t, lowering.runtime⟩) (scopeTree_finished h).1
  rw [Program.lower, Program.lower, hAlike.lowerModule_eq hEquates]

/-- A local with an alias beside it, and an alias of that alias in a block. -/
def linkedLocal : Document where
  scopes := [⟨0, .function, [.plainLocal "self",
      .var (some "x") "LOCAL" "BARE" none (some "new") none, .linked "y" (.named 1 "x")]⟩,
    ⟨1, .block, [.linked "z" (.slot 1 2)]⟩]
  program := ⟨[], 1⟩

def linkedLocalTree : Tree where
  scopes := #[⟨.global, none, []⟩, ⟨.function, some 0, [0, 1, 2]⟩, ⟨.block, some 1, [3]⟩]
  bindings := #[⟨1, .var ((Variable.ofLocal "self").withTarget "self")⟩,
    ⟨1, .var ((Variable.ofLocal "x").withTarget "new$1")⟩, ⟨1, .linked "y" 1⟩, ⟨2, .linked "z" 2⟩]

/-- Declares what the first reference leads to with the value of the second, and loops over the third. -/
def referring (declared value all : Reference) : Program where
  body := [.declare [.mk "x" (some (.identifier "x" (some value) none)) (some declared)] none,
    .withEach (.raw "o" none) (.exit none) 1 value all none]
  scope := 1

theorem aliases_are_interchangeable :
    linkedLocal.scopeTree .empty {} = .ok linkedLocalTree ∧
      linkedLocalTree.SameStorage (.named 1 "x") (.slot 2 0) ∧
      ∃ text, (referring (.named 1 "x") (.slot 1 1) (.named 2 "z")).lower linkedLocalTree {} = .ok text ∧
        (referring (.slot 2 0) (.named 2 "z") (.slot 1 2)).lower linkedLocalTree {} = .ok text := by
  have hTree : linkedLocal.scopeTree .empty {} = .ok linkedLocalTree := by rfl
  have hDeclared : linkedLocalTree.SameStorage (.named 1 "x") (.slot 2 0) := ⟨1, 3, rfl, rfl, rfl⟩
  have hValue : linkedLocalTree.SameStorage (.slot 1 1) (.named 2 "z") := ⟨1, 3, rfl, rfl, rfl⟩
  have hAll : linkedLocalTree.SameStorage (.named 2 "z") (.slot 1 2) := ⟨3, 2, rfl, rfl, rfl⟩
  have hBody : StmtsAlike linkedLocalTree.SameStorage
      (referring (.named 1 "x") (.slot 1 1) (.named 2 "z")).body
      (referring (.slot 2 0) (.named 2 "z") (.slot 1 2)).body :=
    .cons (.declare _ (.cons (.initialized _ (.identifier _ _ (.some hValue)) (.some hDeclared)) .nil))
      (.cons (.withEach _ _ (.raw _ _) (.exit _) hValue hAll) .nil)
  obtain ⟨text, hText⟩ : ∃ text,
      (referring (.named 1 "x") (.slot 1 1) (.named 2 "z")).lower linkedLocalTree {} = .ok text := ⟨_, rfl⟩
  exact ⟨hTree, hDeclared, text, hText, (lower_eq_of_sameStorage hTree ⟨hBody, rfl⟩ {}).symm.trans hText⟩

end Document
end TreeLowering

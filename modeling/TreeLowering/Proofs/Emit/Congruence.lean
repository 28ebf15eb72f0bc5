import TreeLowering.Emit.Lowering
import TreeLowering.Program.Mention

/-! # Relations between emissions

Lowering a node prints fixed texts, nests blocks and asks its setting a few questions. A relation
between emissions that is kept by printing, sequencing and nesting, and that holds between the answers
of two settings, therefore holds between the lowerings of any node in them. -/
namespace TreeLowering
set_option autoImplicit false

namespace Emit

/-- The relation is kept by the ways emissions are built. -/
structure Congruence (R : Emit Unit → Emit Unit → Prop) : Prop where
  pure : R (pure ()) (pure ())
  print : ∀ s, R (print s) (print s)
  printIndent : R printIndent printIndent
  seq : ∀ {m m' n n' : Emit Unit}, R m m' → R n n' → R (m >>= fun _ => n) (m' >>= fun _ => n')
  block : ∀ {m m' : Emit Unit}, R m m' → R (do indent; m; outdent) (do indent; m'; outdent)

/-- Prints a text that is found without printing. -/
def printFound (r : Result String) : Emit Unit := do print (← query r)

theorem printFound_seq (r : Result String) (n : Emit Unit) :
    (printFound r >>= fun _ => n) = (do print (← query r); n) := by
  simp only [printFound, bind_assoc]

theorem braced_eq (m : Emit Unit) (omitIndentation : Bool) :
    braced m omitIndentation =
      (do indent; m; outdent) >>= fun _ => (do indentUnless omitIndentation; print "\x7d") := by
  simp only [braced, bind_assoc]

namespace Congruence

variable {R : Emit Unit → Emit Unit → Prop} (hR : Congruence R)

include hR

theorem indentUnless (omitted : Bool) : R (indentUnless omitted) (indentUnless omitted) := by
  cases omitted with
  | false => exact hR.printIndent
  | true => exact hR.pure

theorem line (s : String) : R (line s) (line s) := hR.seq hR.printIndent (hR.seq (hR.print _) (hR.print _))

theorem braced {m m' : Emit Unit} (hm : R m m') (omitIndentation : Bool) :
    R (braced m omitIndentation) (braced m' omitIndentation) := by
  rw [braced_eq, braced_eq]
  exact hR.seq (hR.block hm) (hR.seq (hR.indentUnless _) (hR.print _))

theorem parens {m m' : Emit Unit} (hm : R m m') : R (parens m) (parens m') :=
  hR.seq (hR.print _) (hR.seq hm (hR.print _))

theorem binary (op : BinaryOp) {m m' n n' : Emit Unit} (hm : R m m') (hn : R n n') :
    R (binary op m n) (binary op m' n') :=
  hR.seq (hR.print _) (hR.seq hm (hR.seq (hR.print _) (hR.seq hn (hR.print _))))

theorem unary (op : UnaryOp) {m m' : Emit Unit} (hm : R m m') : R (unary op m) (unary op m') :=
  hR.seq (hR.print _) (hR.seq (hR.print _) (hR.seq hm (hR.print _)))

theorem rawCall (code : String) {m m' : Emit Unit} (hm : R m m') : R (rawCall code m) (rawCall code m') :=
  hR.seq (hR.print _) (hR.seq (hR.print _) (hR.seq (hR.print _) (hR.seq hm (hR.print _))))

theorem statement (form : Form) {m m' : Emit Unit} (hm : R m m') : R (statement form m) (statement form m') := by
  refine hR.seq (hR.indentUnless _) (hR.seq hm ?_)
  split
  · exact hR.pure
  · exact hR.print _

theorem guarded (form : Form) (keyword : String) {condition condition' lines lines' : Emit Unit}
    (hCondition : R condition condition') (hLines : R lines lines') :
    R (guarded form keyword condition lines) (guarded form keyword condition' lines') :=
  hR.seq (hR.print _) (hR.seq hCondition (hR.seq (hR.print _) (hR.braced hLines _)))

theorem branch (form : Form) {condition condition' yes yes' no no' : Emit Unit}
    (hCondition : R condition condition') (hYes : R yes yes') (hNo : R no no') :
    R (branch form condition yes no) (branch form condition' yes' no') :=
  hR.seq (hR.guarded form "if" hCondition hYes) (hR.seq (hR.print _) (hR.braced hNo _))

theorem loop (form : Form) {init init' condition condition' step step' lines lines' : Emit Unit}
    (hInit : R init init') (hCondition : R condition condition') (hStep : R step step')
    (hLines : R lines lines') :
    R (loop form init condition step lines) (loop form init' condition' step' lines') :=
  hR.seq (hR.print _) (hR.seq hInit (hR.seq (hR.print _) (hR.seq hCondition (hR.seq (hR.print _)
    (hR.seq hStep (hR.seq (hR.print _) (hR.braced hLines _)))))))

theorem repeatUntil (form : Form) {lines lines' condition condition' : Emit Unit} (hLines : R lines lines')
    (hCondition : R condition condition') :
    R (repeatUntil form lines condition) (repeatUntil form lines' condition') :=
  hR.seq (hR.print _) (hR.seq (hR.braced hLines _)
    (hR.seq (hR.print _) (hR.seq hCondition (hR.print _))))

theorem clause {label label' lines lines' : Emit Unit} (hLabel : R label label') (hLines : R lines lines') :
    R (clause label lines) (clause label' lines') :=
  hR.seq hR.printIndent (hR.seq hLabel (hR.seq (hR.print _) (hR.block hLines)))

theorem member (form : Form) (object name : String) {closure closure' : Emit Unit}
    (hClosure : R closure closure') : R (member form object name closure) (member form object name closure') :=
  hR.seq (hR.indentUnless _) (hR.seq (hR.print _) (hR.seq hClosure (hR.print _)))

theorem object {g g' : Setting} (hRuntime : g'.runtime = g.runtime) (form : Form) (name parent : String)
    {members members' : String → Emit Unit} (hMembers : ∀ self, R (members self) (members' self)) :
    R (object g form name parent members) (object g' form name parent members') := by
  rw [Emit.object, Emit.object, hRuntime]
  refine hR.seq (hR.print _) (hR.seq (hR.braced ?_ _) (hR.print _))
  exact hR.seq (hR.indentUnless _) (hR.seq (hR.print _) (hR.seq (hR.indentUnless _)
    (hR.seq (hR.print _) (hMembers _))))

end Congruence
end Emit

/-- What the reference of a mention satisfies; a mentioned scope is not asked. -/
def Mention.Refers (P : Reference → Prop) : Mention → Prop
  | scope .. => True
  | reference ref _ => P ref

open Emit

/-- Two settings give related answers to all that lowering asks, as long as references are in `P`. -/
structure Setting.Corresponds (R : Emit Unit → Emit Unit → Prop) (P : Reference → Prop) (g g' : Setting) :
    Prop where
  runtime : g'.runtime = g.runtime
  identifier : ∀ name ref loc, (∀ m ∈ Mention.ofReference? ref loc, m.Refers P) →
    R (printFound (g.identifierText name ref)) (printFound (g'.identifierText name ref))
  declared : ∀ name ref loc, (∀ m ∈ Mention.ofReference? ref loc, m.Refers P) →
    R (printFound (g.declaredName name ref)) (printFound (g'.declaredName name ref))
  localAllocation : ∀ s, R (g.localAllocation s) (g'.localAllocation s)
  parameters : ∀ params s, R (printFound ((g.parameterNames params s).map (Text.join ", ")))
    (printFound ((g'.parameterNames params s).map (Text.join ", ")))
  call : ∀ isMethod s loc {callee callee' args args' : Emit Unit}, R callee callee' → R args args' →
    R (Emit.call g callee args isMethod s loc) (Emit.call g' callee' args' isMethod s loc)
  withEach : ∀ form s index all loc {lines lines' : Emit Unit}, P index → P all → R lines lines' →
    R (Emit.withEach g form s index all loc lines) (Emit.withEach g' form s index all loc lines')

section

variable {R : Emit Unit → Emit Unit → Prop} (hR : Congruence R) {P : Reference → Prop} {g g' : Setting}

include hR

theorem Emit.functionBody_congr (hg : g.Corresponds R P g') (params : List String) (s : Nat) {lines lines' : Emit Unit}
    (hLines : R lines lines') : R (functionBody g params s lines) (functionBody g' params s lines') := by
  have hBody : ∀ (g : Setting) (lines : Emit Unit), functionBody g params s lines =
      (do
        print "("
        printFound ((g.parameterNames params s).map (Text.join ", "))
        print ") \x7b\n"
        braced (do g.localAllocation s; lines) false) := by
    intro g lines
    simp only [functionBody, printFound, bind_assoc]
    cases g.parameterNames params s <;> rfl
  rw [hBody, hBody]
  exact hR.seq (hR.print _) (hR.seq (hg.parameters params s)
    (hR.seq (hR.print _) (hR.braced (hR.seq (hg.localAllocation s) hLines) _)))

mutual
theorem Expr.lower_congr (hg : g.Corresponds R P g') (e : Expr) (h : ∀ m ∈ e.mentions, m.Refers P) :
    R (e.lower g) (e.lower g') := by
  match e with
  | .identifier name ref loc => exact hg.identifier name ref loc h
  | .binary op left right _ =>
    rw [Expr.mentions, List.forall_mem_append] at h
    exact hR.binary op (left.lower_congr hg h.1) (right.lower_congr hg h.2)
  | .unary op operand _ => exact hR.unary op (operand.lower_congr hg h)
  | .number value _ => exact hR.parens (hR.print _)
  | .string value _ => exact hR.print _
  | .index base indexes _ =>
    rw [Expr.mentions, List.forall_mem_append] at h
    exact hR.seq (hR.parens (base.lower_congr hg h.1)) (lowerIndexes_congr hg indexes h.2)
  | .call callee args isMethod scope loc =>
    rw [Expr.mentions, List.forall_mem_cons, List.forall_mem_append] at h
    exact hg.call isMethod scope loc (callee.lower_congr hg h.2.1) (lowerFurther_congr hg args h.2.2)
  | .closure fn loc => exact fn.lower_congr hg h
  | .rawCall code args _ => exact hR.rawCall code (lowerArgs_congr hg args h)
  | .raw code _ => exact hR.print code

theorem lowerIndexes_congr (hg : g.Corresponds R P g') (es : List Expr) (h : ∀ m ∈ exprsMentions es, m.Refers P) :
    R (lowerIndexes g es) (lowerIndexes g' es) := by
  match es with
  | [] => exact hR.pure
  | e :: rest =>
    rw [exprsMentions, List.forall_mem_append] at h
    exact hR.seq (hR.print _) (hR.seq (e.lower_congr hg h.1) (hR.seq (hR.print _) (lowerIndexes_congr hg rest h.2)))

theorem lowerFurther_congr (hg : g.Corresponds R P g') (es : List Expr) (h : ∀ m ∈ exprsMentions es, m.Refers P) :
    R (lowerFurther g es) (lowerFurther g' es) := by
  match es with
  | [] => exact hR.pure
  | e :: rest =>
    rw [exprsMentions, List.forall_mem_append] at h
    exact hR.seq (hR.print _) (hR.seq (e.lower_congr hg h.1) (lowerFurther_congr hg rest h.2))

theorem lowerArgs_congr (hg : g.Corresponds R P g') (es : List Expr) (h : ∀ m ∈ exprsMentions es, m.Refers P) :
    R (lowerArgs g es) (lowerArgs g' es) := by
  match es with
  | [] => exact hR.pure
  | e :: rest =>
    rw [exprsMentions, List.forall_mem_append] at h
    exact hR.seq (e.lower_congr hg h.1) (lowerFurther_congr hg rest h.2)

theorem Function.lowerBody_congr (hg : g.Corresponds R P g') (fn : Function) {loc : Option Location}
    (h : ∀ m ∈ fn.mentions loc, m.Refers P) : R (fn.lowerBody g) (fn.lowerBody g') := by
  match fn with
  | .mk params body scope =>
    rw [Function.mentions, List.forall_mem_cons] at h
    exact functionBody_congr hR hg params scope (body.lower_congr hg .full h.2)

theorem Function.lower_congr (hg : g.Corresponds R P g') (fn : Function) {loc : Option Location}
    (h : ∀ m ∈ fn.mentions loc, m.Refers P) : R (fn.lower g) (fn.lower g') := by
  match fn with
  | .mk params body scope =>
    rw [Function.mentions, List.forall_mem_cons] at h
    exact hR.seq (hR.print _) (functionBody_congr hR hg params scope (body.lower_congr hg .full h.2))

theorem Stmt.lower_congr (hg : g.Corresponds R P g') (form : Form) (s : Stmt) (h : ∀ m ∈ s.mentions, m.Refers P) :
    R (s.lower g form) (s.lower g' form) := by
  match s with
  | .declare declarators _ =>
    exact hR.statement form (hR.seq (hR.print _) (lowerDeclarators_congr hg declarators h))
  | .assign left right _ =>
    rw [Stmt.mentions, List.forall_mem_append] at h
    exact hR.statement form (hR.seq (left.lower_congr hg h.1) (hR.seq (hR.print _) (right.lower_congr hg h.2)))
  | .define name fn _ =>
    rw [Stmt.lower, Stmt.lower, hg.runtime]
    exact hR.statement form (hR.seq (hR.print _) (fn.lowerBody_congr hg h))
  | .constant name value _ =>
    rw [Stmt.lower, Stmt.lower, hg.runtime]
    exact hR.statement form (hR.seq (hR.print _) (value.lower_congr hg h))
  | .switch subject clauses _ =>
    rw [Stmt.mentions, List.forall_mem_append] at h
    exact hR.statement form (hR.guarded form "switch" (subject.lower_congr hg h.1) (lowerClauses_congr hg clauses h.2))
  | .loop init condition step body _ =>
    simp only [Stmt.mentions, List.forall_mem_append] at h
    obtain ⟨⟨⟨hInit, hCondition⟩, hStep⟩, hBody⟩ := h
    exact hR.statement form (hR.loop form (init.lower_congr hg .inline hInit) (condition.lower_congr hg hCondition)
      (step.lower_congr hg .inline hStep) (body.lower_congr hg .full hBody))
  | .when condition body _ =>
    rw [Stmt.mentions, List.forall_mem_append] at h
    exact hR.statement form (hR.branch form (condition.lower_congr hg h.1) (body.lower_congr hg .full h.2) hR.pure)
  | .branch condition yes no _ =>
    simp only [Stmt.mentions, List.forall_mem_append] at h
    obtain ⟨⟨hCondition, hYes⟩, hNo⟩ := h
    exact hR.statement form (hR.branch form (condition.lower_congr hg hCondition) (yes.lower_congr hg .full hYes)
      (no.lower_congr hg .full hNo))
  | .repeatWhile condition body _ =>
    rw [Stmt.mentions, List.forall_mem_append] at h
    exact hR.statement form (hR.guarded form "while" (condition.lower_congr hg h.1) (body.lower_congr hg .full h.2))
  | .repeatUntil body condition _ =>
    rw [Stmt.mentions, List.forall_mem_append] at h
    exact hR.statement form (hR.repeatUntil form (body.lower_congr hg .full h.2) (condition.lower_congr hg h.1))
  | .breakLoop _ | .continueLoop _ | .exit _ => exact hR.statement form (hR.print _)
  | .block body _ => exact lowerStmts_congr hg body h
  | .withEach subject body scope index all loc =>
    simp only [Stmt.mentions, List.forall_mem_append, List.forall_mem_cons] at h
    obtain ⟨⟨⟨_, hIndex, hAll, _⟩, _⟩, hBody⟩ := h
    exact hg.withEach form scope index all loc hIndex hAll (body.lower_congr hg .full hBody)
  | .returnValue value _ =>
    exact hR.statement form (hR.seq (hR.print _) (hR.parens (value.lower_congr hg h)))
  | .object name parent init create destroy methods _ =>
    simp only [Stmt.mentions, List.forall_mem_append] at h
    obtain ⟨⟨⟨hInit, hCreate⟩, hDestroy⟩, hMethods⟩ := h
    refine hR.statement form (hR.object hg.runtime form name parent fun self => ?_)
    rw [hg.runtime]
    exact hR.seq (hR.member form self _ (init.lower_congr hg hInit))
      (hR.seq (lowerHook_congr hg form self _ create hCreate)
        (hR.seq (lowerHook_congr hg form self _ destroy hDestroy) (lowerMethods_congr hg form self methods hMethods)))
  | .nop _ => exact hR.pure
  | .call callee args isMethod scope loc =>
    rw [Stmt.mentions, List.forall_mem_cons, List.forall_mem_append] at h
    exact hR.statement form
      (hg.call isMethod scope loc (callee.lower_congr hg h.2.1) (lowerFurther_congr hg args h.2.2))
  | .rawCall code args _ => exact hR.statement form (hR.rawCall code (lowerArgs_congr hg args h))

theorem lowerStmts_congr (hg : g.Corresponds R P g') (ss : List Stmt) (h : ∀ m ∈ stmtsMentions ss, m.Refers P) :
    R (lowerStmts g ss) (lowerStmts g' ss) := by
  match ss with
  | [] => exact hR.pure
  | s :: rest =>
    rw [stmtsMentions, List.forall_mem_append] at h
    exact hR.seq (s.lower_congr hg .full h.1) (lowerStmts_congr hg rest h.2)

theorem Declarator.lower_congr (hg : g.Corresponds R P g') (d : Declarator) {loc : Option Location}
    (h : ∀ m ∈ d.mentions loc, m.Refers P) : R (d.lower g) (d.lower g') := by
  match d with
  | .mk name none ref => exact hg.declared name ref loc h
  | .mk name (some value) ref =>
    rw [Declarator.mentions, List.forall_mem_append] at h
    rw [Declarator.lower, Declarator.lower, ← printFound_seq, ← printFound_seq]
    exact hR.seq (hg.declared name ref loc h.1) (hR.seq (hR.print _) (value.lower_congr hg h.2))

theorem lowerDeclarators_congr (hg : g.Corresponds R P g') (ds : List Declarator) {loc : Option Location}
    (h : ∀ m ∈ declaratorsMentions loc ds, m.Refers P) :
    R (lowerDeclarators g ds) (lowerDeclarators g' ds) := by
  match ds with
  | [] => exact hR.pure
  | [d] =>
    rw [declaratorsMentions, List.forall_mem_append] at h
    exact d.lower_congr hg h.1
  | d :: e :: rest =>
    rw [declaratorsMentions, List.forall_mem_append] at h
    exact hR.seq (d.lower_congr hg h.1) (hR.seq (hR.print _) (lowerDeclarators_congr hg (e :: rest) h.2))

theorem Clause.lower_congr (hg : g.Corresponds R P g') (c : Clause) (h : ∀ m ∈ c.mentions, m.Refers P) :
    R (c.lower g) (c.lower g') := by
  match c with
  | .case value body =>
    rw [Clause.mentions, List.forall_mem_append] at h
    exact hR.clause (hR.seq (hR.print _) (hR.parens (value.lower_congr hg h.1))) (body.lower_congr hg .full h.2)
  | .default body => exact hR.clause (hR.print _) (body.lower_congr hg .full h)

theorem lowerClauses_congr (hg : g.Corresponds R P g') (cs : List Clause)
    (h : ∀ m ∈ clausesMentions cs, m.Refers P) : R (lowerClauses g cs) (lowerClauses g' cs) := by
  match cs with
  | [] => exact hR.pure
  | c :: rest =>
    rw [clausesMentions, List.forall_mem_append] at h
    exact hR.seq (c.lower_congr hg h.1) (lowerClauses_congr hg rest h.2)

theorem lowerHook_congr (hg : g.Corresponds R P g') (form : Form) (self name : String) (fn : Option Function)
    {loc : Option Location} (h : ∀ m ∈ functionMentions? loc fn, m.Refers P) :
    R (lowerHook g form self name fn) (lowerHook g' form self name fn) := by
  match fn with
  | none => exact hR.pure
  | some fn => exact hR.member form self name (fn.lower_congr hg h)

theorem lowerMethods_congr (hg : g.Corresponds R P g') (form : Form) (self : String) (ms : List Method)
    {loc : Option Location} (h : ∀ m ∈ methodsMentions loc ms, m.Refers P) :
    R (lowerMethods g form self ms) (lowerMethods g' form self ms) := by
  match ms with
  | [] => exact hR.pure
  | .mk name fn :: rest =>
    rw [methodsMentions, List.forall_mem_append] at h
    exact hR.seq (hR.member form self name (fn.lower_congr hg h.1)) (lowerMethods_congr hg form self rest h.2)
end

theorem Program.lowerModule_congr (hg : g.Corresponds R P g') (p : Program) (h : ∀ m ∈ p.mentions, m.Refers P) :
    R (p.lowerModule g) (p.lowerModule g') := by
  rw [Program.mentions, List.forall_mem_cons] at h
  rw [Program.lowerModule, Program.lowerModule, hg.runtime]
  refine hR.seq (hR.print _) (hR.seq (hR.braced ?_ true) (hR.print _))
  exact hR.seq (hR.line _) (hR.seq (hR.line _) (hR.seq (hR.line _)
    (hR.seq (hg.localAllocation p.scope) (lowerStmts_congr hR hg p.body h.2))))

end

end TreeLowering

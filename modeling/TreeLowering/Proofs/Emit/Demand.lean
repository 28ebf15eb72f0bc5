import TreeLowering.Proofs.Emit.Congruence
import TreeLowering.Proofs.Scope.Totality

/-! # What lowering looks up by name

Calls look up their receivers and a `with` statement its inner `self`, and no reference of the
document says whether they exist. An emission that serves a list of demands succeeds if all of them
are met, and fails with an unresolved name otherwise. -/
namespace TreeLowering
set_option autoImplicit false

/-- A name that an emitted node looks up. -/
inductive Demand where
  /-- A name of the caller, looked for outward from the scope of a call. -/
  | receiver (scope : Nat) (name : String)
  /-- The `self` that the scope of a `with` statement itself binds. -/
  | innerSelf (scope : Nat)
deriving DecidableEq

namespace Demand

def Met (t : Tree) : Demand → Prop
  | receiver s name => ∃ b, t.lookupChain s name = .ok b
  | innerSelf s => ∃ b, t.lookupLocal s "self" = .ok (some b)

/-- Every call hands on the caller's `other`, a plain one also its `self`. -/
def ofCall (scope : Nat) (isMethod : Bool) : List Demand :=
  if isMethod then [receiver scope "other"] else [receiver scope "other", receiver scope "self"]

end Demand

mutual
/-- The demands of an expression, in the order they are served. -/
def Expr.demands : Expr → List Demand
  | .identifier .. | .number .. | .string .. | .raw .. => []
  | .binary _ left right _ => left.demands ++ right.demands
  | .unary _ operand _ => operand.demands
  | .index base indexes _ => base.demands ++ exprsDemands indexes
  | .call callee args isMethod scope _ =>
    callee.demands ++ (Demand.ofCall scope isMethod ++ exprsDemands args)
  | .closure fn _ => fn.demands
  | .rawCall _ args _ => exprsDemands args

def exprsDemands : List Expr → List Demand
  | [] => []
  | e :: rest => e.demands ++ exprsDemands rest

def Function.demands : Function → List Demand
  | .mk _ body _ => body.demands

def functionDemands? : Option Function → List Demand
  | some fn => fn.demands
  | none => []

/-- The subject of a `with` statement is not emitted, so it demands nothing. -/
def Stmt.demands : Stmt → List Demand
  | .declare declarators _ => declaratorsDemands declarators
  | .assign left right _ => left.demands ++ right.demands
  | .define _ fn _ => fn.demands
  | .constant _ value _ => value.demands
  | .switch subject clauses _ => subject.demands ++ clausesDemands clauses
  | .loop init condition step body _ =>
    init.demands ++ (condition.demands ++ (step.demands ++ body.demands))
  | .when condition body _ => condition.demands ++ body.demands
  | .branch condition yes no _ => condition.demands ++ (yes.demands ++ no.demands)
  | .repeatWhile condition body _ => condition.demands ++ body.demands
  | .repeatUntil body condition _ => body.demands ++ condition.demands
  | .breakLoop _ | .continueLoop _ | .exit _ | .nop _ => []
  | .block body _ => stmtsDemands body
  | .withEach _ body scope _ _ _ => .innerSelf scope :: body.demands
  | .returnValue value _ => value.demands
  | .object _ _ init create destroy methods _ =>
    init.demands ++ (functionDemands? create ++ (functionDemands? destroy ++ methodsDemands methods))
  | .call callee args isMethod scope _ =>
    callee.demands ++ (Demand.ofCall scope isMethod ++ exprsDemands args)
  | .rawCall _ args _ => exprsDemands args

def stmtsDemands : List Stmt → List Demand
  | [] => []
  | s :: rest => s.demands ++ stmtsDemands rest

def Declarator.demands : Declarator → List Demand
  | .mk _ (some value) _ => value.demands
  | .mk _ none _ => []

def declaratorsDemands : List Declarator → List Demand
  | [] => []
  | d :: rest => d.demands ++ declaratorsDemands rest

def Clause.demands : Clause → List Demand
  | .case value body => value.demands ++ body.demands
  | .default body => body.demands

def clausesDemands : List Clause → List Demand
  | [] => []
  | c :: rest => c.demands ++ clausesDemands rest

def Method.demands : Method → List Demand
  | .mk _ fn => fn.demands

def methodsDemands : List Method → List Demand
  | [] => []
  | m :: rest => m.demands ++ methodsDemands rest
end

def Program.demands (p : Program) : List Demand := stmtsDemands p.body

namespace Emit

/-- The emission serves the demands: it prints and keeps the level if the tree meets them all, and
fails to resolve a name otherwise. -/
def Serves (t : Tree) (ds : List Demand) (m : Emit Unit) : Prop :=
  ∀ k, ((∀ d ∈ ds, d.Met t) ∧ ∃ text, m k = .ok () { k with text := text }) ∨
    ((¬∀ d ∈ ds, d.Met t) ∧
      ∃ name seeker loc k', m k = .error (.fault (.unresolved name seeker) loc) k')

variable {t : Tree} {α : Type}

theorem serves_of_ok {m : Emit Unit} (h : ∀ k, ∃ text, m k = .ok () { k with text := text }) :
    Serves t [] m :=
  fun k => .inl ⟨by simp, h k⟩

theorem serves_pure : Serves t [] (pure ()) := serves_of_ok fun k => ⟨k.text, rfl⟩

theorem serves_print (s : String) : Serves t [] (print s) := serves_of_ok fun k => ⟨k.text ++ s, rfl⟩

theorem serves_printIndent : Serves t [] printIndent := serves_of_ok fun k => ⟨k.text ++ k.indentation, rfl⟩

theorem serves_indentUnless (omitted : Bool) : Serves t [] (indentUnless omitted) := by
  cases omitted with
  | false => exact serves_printIndent
  | true => exact serves_pure

theorem Serves.seq {ds es : List Demand} {m n : Emit Unit} (hm : Serves t ds m) (hn : Serves t es n) :
    Serves t (ds ++ es) (m >>= fun _ => n) := by
  intro k
  rw [List.forall_mem_append]
  rcases hm k with ⟨hMet, text, hOk⟩ | ⟨hUnmet, name, seeker, loc, k', hError⟩
  · simp only [bind, EStateM.bind, hOk]
    rcases hn { k with text := text } with ⟨hMet', text', hOk'⟩ | ⟨hUnmet', hError'⟩
    · exact .inl ⟨⟨hMet, hMet'⟩, text', hOk'⟩
    · exact .inr ⟨fun h => hUnmet' h.2, hError'⟩
  · simp only [bind, EStateM.bind, hError]
    exact .inr ⟨fun h => hUnmet h.1, name, seeker, loc, k', rfl⟩

theorem Serves.thenSilent {ds : List Demand} {m n : Emit Unit} (hm : Serves t ds m) (hn : Serves t [] n) :
    Serves t ds (m >>= fun _ => n) := by
  simpa using hm.seq hn

theorem Serves.afterSilent {ds : List Demand} {m n : Emit Unit} (hm : Serves t [] m) (hn : Serves t ds n) :
    Serves t ds (m >>= fun _ => n) := hm.seq hn

theorem Serves.query {ds : List Demand} {r : Result α} {k : α → Emit Unit} (hr : ∃ a, r = .ok a)
    (hk : ∀ a, r = .ok a → Serves t ds (k a)) : Serves t ds (Emit.query r >>= k) := by
  obtain ⟨a, ha⟩ := hr
  subst ha
  exact hk a rfl

theorem Serves.lookup {d : Demand} {ds : List Demand} {r : Result α} {k : α → Emit Unit}
    (hr : (d.Met t ∧ ∃ a, r = .ok a) ∨
      (¬d.Met t ∧ ∃ name seeker loc, r = .error (.fault (.unresolved name seeker) loc)))
    (hk : ∀ a, r = .ok a → Serves t ds (k a)) : Serves t (d :: ds) (Emit.query r >>= k) := by
  intro s
  rw [List.forall_mem_cons]
  rcases hr with ⟨hMet, a, rfl⟩ | ⟨hUnmet, name, seeker, loc, rfl⟩
  · rcases hk a rfl s with ⟨hRest, hOk⟩ | ⟨hRest, hError⟩
    · exact .inl ⟨⟨hMet, hRest⟩, hOk⟩
    · exact .inr ⟨fun h => hRest h.2, hError⟩
  · exact .inr ⟨fun h => hUnmet h.1, name, seeker, loc, s, rfl⟩

theorem Serves.block {ds : List Demand} {m : Emit Unit} (hm : Serves t ds m) :
    Serves t ds (do indent; m; outdent) := by
  intro k
  simp only [bind, EStateM.bind, indent_apply]
  rcases hm { k with level := k.level + 1 } with ⟨hMet, text, hOk⟩ | ⟨hUnmet, name, seeker, loc, k', hError⟩
  · simp only [hOk]
    exact .inl ⟨hMet, text, outdent_apply_succ rfl⟩
  · simp only [hError]
    exact .inr ⟨hUnmet, name, seeker, loc, k', rfl⟩

/-! ## Shapes -/

theorem Serves.braced {ds : List Demand} {m : Emit Unit} (hm : Serves t ds m) (omitIndentation : Bool) :
    Serves t ds (Emit.braced m omitIndentation) := by
  rw [braced_eq]
  exact hm.block.thenSilent ((serves_indentUnless _).afterSilent (serves_print _))

theorem Serves.parens {ds : List Demand} {m : Emit Unit} (hm : Serves t ds m) :
    Serves t ds (Emit.parens m) :=
  (serves_print _).afterSilent (hm.thenSilent (serves_print _))

theorem Serves.binary {ds es : List Demand} {m n : Emit Unit} (op : BinaryOp) (hm : Serves t ds m)
    (hn : Serves t es n) : Serves t (ds ++ es) (Emit.binary op m n) :=
  (serves_print _).afterSilent
    (hm.seq ((serves_print _).afterSilent (hn.thenSilent (serves_print _))))

theorem Serves.unary {ds : List Demand} {m : Emit Unit} (op : UnaryOp) (hm : Serves t ds m) :
    Serves t ds (Emit.unary op m) :=
  (serves_print _).afterSilent ((serves_print _).afterSilent (hm.thenSilent (serves_print _)))

theorem Serves.rawCall {ds : List Demand} {m : Emit Unit} (code : String) (hm : Serves t ds m) :
    Serves t ds (Emit.rawCall code m) :=
  (serves_print _).afterSilent ((serves_print _).afterSilent
    ((serves_print _).afterSilent (hm.thenSilent (serves_print _))))

theorem Serves.statement {ds : List Demand} {m : Emit Unit} (form : Form) (hm : Serves t ds m) :
    Serves t ds (Emit.statement form m) := by
  refine (serves_indentUnless _).afterSilent (hm.thenSilent ?_)
  split
  · exact serves_pure
  · exact serves_print _

theorem Serves.guarded {ds es : List Demand} {condition lines : Emit Unit} (form : Form) (keyword : String)
    (hCondition : Serves t ds condition) (hLines : Serves t es lines) :
    Serves t (ds ++ es) (Emit.guarded form keyword condition lines) :=
  (serves_print _).afterSilent (hCondition.seq ((serves_print _).afterSilent (hLines.braced _)))

theorem Serves.branch {ds es fs : List Demand} {condition yes no : Emit Unit} (form : Form)
    (hCondition : Serves t ds condition) (hYes : Serves t es yes) (hNo : Serves t fs no) :
    Serves t (ds ++ (es ++ fs)) (Emit.branch form condition yes no) := by
  rw [← List.append_assoc]
  exact (hCondition.guarded form "if" hYes).seq ((serves_print _).afterSilent (hNo.braced _))

theorem Serves.loop {ds es fs gs : List Demand} {init condition step lines : Emit Unit} (form : Form)
    (hInit : Serves t ds init) (hCondition : Serves t es condition) (hStep : Serves t fs step)
    (hLines : Serves t gs lines) :
    Serves t (ds ++ (es ++ (fs ++ gs))) (Emit.loop form init condition step lines) :=
  (serves_print _).afterSilent (hInit.seq ((serves_print _).afterSilent
    (hCondition.seq ((serves_print _).afterSilent
      (hStep.seq ((serves_print _).afterSilent (hLines.braced _)))))))

theorem Serves.repeatUntil {ds es : List Demand} {lines condition : Emit Unit} (form : Form)
    (hLines : Serves t ds lines) (hCondition : Serves t es condition) :
    Serves t (ds ++ es) (Emit.repeatUntil form lines condition) :=
  (serves_print _).afterSilent ((hLines.braced _).seq
    ((serves_print _).afterSilent (hCondition.thenSilent (serves_print _))))

theorem Serves.clause {ds es : List Demand} {label lines : Emit Unit} (hLabel : Serves t ds label)
    (hLines : Serves t es lines) : Serves t (ds ++ es) (Emit.clause label lines) :=
  serves_printIndent.afterSilent (hLabel.seq ((serves_print _).afterSilent hLines.block))

theorem Serves.member {ds : List Demand} {closure : Emit Unit} (form : Form) (object name : String)
    (hClosure : Serves t ds closure) : Serves t ds (Emit.member form object name closure) :=
  (serves_indentUnless _).afterSilent
    ((serves_print _).afterSilent (hClosure.thenSilent (serves_print _)))

theorem Serves.object {ds : List Demand} {members : String → Emit Unit} (g : Setting) (form : Form)
    (name parent : String) (hMembers : ∀ self, Serves t ds (members self)) :
    Serves t ds (Emit.object g form name parent members) := by
  refine (serves_print _).afterSilent (Serves.thenSilent (Serves.braced ?_ _) (serves_print _))
  exact (serves_indentUnless _).afterSilent ((serves_print _).afterSilent
    ((serves_indentUnless _).afterSilent ((serves_print _).afterSilent (hMembers _))))

end Emit
end TreeLowering

import TreeLowering.Compile

/-! # Flattened programs

A block in statement position contributes its statements, a no-op nothing, and an `if` without `else` is
one with an empty `else`. Neither the checks nor the text of a program tell it from its flattened form. -/
namespace TreeLowering
set_option autoImplicit false

namespace Stmt

/-- What a statement contributes where it stands in statement position. -/
def spliced : Stmt → List Stmt
  | .block body _ => body
  | .nop _ => []
  | .when condition body loc => [.branch condition body (.block [] none) loc]
  | s => [s]

/-- The statements of a body, as one block. -/
def asBody (s : Stmt) : Stmt := .block s.spliced none

end Stmt

mutual
def Expr.flatten : Expr → Expr
  | .identifier name ref loc => .identifier name ref loc
  | .binary op left right loc => .binary op left.flatten right.flatten loc
  | .unary op operand loc => .unary op operand.flatten loc
  | .number value loc => .number value loc
  | .string value loc => .string value loc
  | .index base indexes loc => .index base.flatten (flattenExprs indexes) loc
  | .call callee args isMethod scope loc => .call callee.flatten (flattenExprs args) isMethod scope loc
  | .closure fn loc => .closure fn.flatten loc
  | .rawCall code args loc => .rawCall code (flattenExprs args) loc
  | .raw code loc => .raw code loc

def flattenExprs : List Expr → List Expr
  | [] => []
  | e :: rest => e.flatten :: flattenExprs rest

def Function.flatten : Function → Function
  | .mk params body scope => .mk params body.flatten.asBody scope

def flattenFunction? : Option Function → Option Function
  | some fn => some fn.flatten
  | none => none

/-- Rewrites everything below a statement. The statement itself keeps its kind: whether it may be
spliced depends on where it stands, and the header of a loop is no place for it. -/
def Stmt.flatten : Stmt → Stmt
  | .declare declarators loc => .declare (flattenDeclarators declarators) loc
  | .assign left right loc => .assign left.flatten right.flatten loc
  | .define name fn loc => .define name fn.flatten loc
  | .constant name value loc => .constant name value.flatten loc
  | .switch subject clauses loc => .switch subject.flatten (flattenClauses clauses) loc
  | .loop init condition step body loc =>
    .loop init.flatten condition.flatten step.flatten body.flatten.asBody loc
  | .when condition body loc => .when condition.flatten body.flatten.asBody loc
  | .branch condition yes no loc => .branch condition.flatten yes.flatten.asBody no.flatten.asBody loc
  | .repeatWhile condition body loc => .repeatWhile condition.flatten body.flatten.asBody loc
  | .repeatUntil body condition loc => .repeatUntil body.flatten.asBody condition.flatten loc
  | .breakLoop loc => .breakLoop loc
  | .continueLoop loc => .continueLoop loc
  | .block body loc => .block (flattenStmts body) loc
  | .withEach subject body scope index all loc =>
    .withEach subject.flatten body.flatten.asBody scope index all loc
  | .returnValue value loc => .returnValue value.flatten loc
  | .exit loc => .exit loc
  | .object name parent init create destroy methods loc =>
    .object name parent init.flatten (flattenFunction? create) (flattenFunction? destroy)
      (flattenMethods methods) loc
  | .nop loc => .nop loc
  | .call callee args isMethod scope loc => .call callee.flatten (flattenExprs args) isMethod scope loc
  | .rawCall code args loc => .rawCall code (flattenExprs args) loc

def flattenStmts : List Stmt → List Stmt
  | [] => []
  | s :: rest => s.flatten.spliced ++ flattenStmts rest

def Declarator.flatten : Declarator → Declarator
  | .mk name (some value) ref => .mk name (some value.flatten) ref
  | .mk name none ref => .mk name none ref

def flattenDeclarators : List Declarator → List Declarator
  | [] => []
  | d :: rest => d.flatten :: flattenDeclarators rest

def Clause.flatten : Clause → Clause
  | .case value body => .case value.flatten body.flatten.asBody
  | .default body => .default body.flatten.asBody

def flattenClauses : List Clause → List Clause
  | [] => []
  | c :: rest => c.flatten :: flattenClauses rest

def flattenMethods : List Method → List Method
  | [] => []
  | .mk name fn :: rest => .mk name fn.flatten :: flattenMethods rest
end

def Program.flatten (p : Program) : Program := ⟨flattenStmts p.body, p.scope⟩

/-! ## Splicing -/

variable (g : Setting)

theorem lowerStmts_append (ss ts : List Stmt) :
    lowerStmts g (ss ++ ts) = lowerStmts g ss >>= fun _ => lowerStmts g ts := by
  induction ss with
  | nil => rw [List.nil_append, lowerStmts, pure_bind]
  | cons s ss ih => rw [List.cons_append, lowerStmts, lowerStmts, bind_assoc, ih]

theorem lowerStmts_singleton (s : Stmt) : lowerStmts g [s] = s.lower g .full := by
  rw [lowerStmts, lowerStmts]
  exact bind_pure _

theorem lowerStmts_spliced (s : Stmt) : lowerStmts g s.spliced = s.lower g .full := by
  cases s with
  | block body loc => rw [Stmt.spliced, Stmt.lower]
  | nop loc => rw [Stmt.spliced, Stmt.lower, lowerStmts]
  | when condition body loc =>
    rw [Stmt.spliced, lowerStmts_singleton, Stmt.lower, Stmt.lower, Stmt.lower, lowerStmts]
  | _ => exact lowerStmts_singleton g _

theorem Stmt.lower_asBody (s : Stmt) : s.asBody.lower g .full = s.lower g .full := by
  rw [asBody, Stmt.lower, lowerStmts_spliced]

theorem stmtsMentions_append (ss ts : List Stmt) :
    stmtsMentions (ss ++ ts) = stmtsMentions ss ++ stmtsMentions ts := by
  induction ss with
  | nil => rw [List.nil_append, stmtsMentions, List.nil_append]
  | cons s ss ih => rw [List.cons_append, stmtsMentions, stmtsMentions, ih, List.append_assoc]

theorem stmtsMentions_spliced (s : Stmt) : stmtsMentions s.spliced = s.mentions := by
  cases s <;> simp [Stmt.spliced, Stmt.mentions, stmtsMentions]

theorem Stmt.mentions_asBody (s : Stmt) : s.asBody.mentions = s.mentions := by
  rw [asBody, Stmt.mentions, stmtsMentions_spliced]

/-! ## The same text -/

mutual
theorem Expr.lower_flatten (e : Expr) : e.flatten.lower g = e.lower g := by
  match e with
  | .identifier .. | .number .. | .string .. | .raw .. => rw [Expr.flatten]
  | .binary op left right _ =>
    rw [Expr.flatten, Expr.lower, Expr.lower, left.lower_flatten, right.lower_flatten]
  | .unary op operand _ => rw [Expr.flatten, Expr.lower, Expr.lower, operand.lower_flatten]
  | .index base indexes _ =>
    rw [Expr.flatten, Expr.lower, Expr.lower, base.lower_flatten, lowerIndexes_flatten indexes]
  | .call callee args isMethod scope loc =>
    rw [Expr.flatten, Expr.lower, Expr.lower, callee.lower_flatten, lowerFurther_flatten args]
  | .closure fn _ => rw [Expr.flatten, Expr.lower, Expr.lower, fn.lower_flatten]
  | .rawCall code args _ => rw [Expr.flatten, Expr.lower, Expr.lower, lowerArgs_flatten args]

theorem lowerIndexes_flatten (es : List Expr) : lowerIndexes g (flattenExprs es) = lowerIndexes g es := by
  match es with
  | [] => rw [flattenExprs]
  | e :: rest => rw [flattenExprs, lowerIndexes, lowerIndexes, e.lower_flatten, lowerIndexes_flatten rest]

theorem lowerFurther_flatten (es : List Expr) : lowerFurther g (flattenExprs es) = lowerFurther g es := by
  match es with
  | [] => rw [flattenExprs]
  | e :: rest => rw [flattenExprs, lowerFurther, lowerFurther, e.lower_flatten, lowerFurther_flatten rest]

theorem lowerArgs_flatten (es : List Expr) : lowerArgs g (flattenExprs es) = lowerArgs g es := by
  match es with
  | [] => rw [flattenExprs]
  | e :: rest => rw [flattenExprs, lowerArgs, lowerArgs, e.lower_flatten, lowerFurther_flatten rest]

theorem Function.lowerBody_flatten (fn : Function) : fn.flatten.lowerBody g = fn.lowerBody g := by
  match fn with
  | .mk params body scope =>
    rw [Function.flatten, Function.lowerBody, Function.lowerBody, body.flatten.lower_asBody,
      body.lower_flatten]

theorem Function.lower_flatten (fn : Function) : fn.flatten.lower g = fn.lower g := by
  match fn with
  | .mk params body scope =>
    rw [Function.flatten, Function.lower, Function.lower, body.flatten.lower_asBody, body.lower_flatten]

theorem Stmt.lower_flatten (form : Form) (s : Stmt) : s.flatten.lower g form = s.lower g form := by
  match s with
  | .breakLoop _ | .continueLoop _ | .exit _ | .nop _ => rw [Stmt.flatten]
  | .declare declarators _ => rw [Stmt.flatten, Stmt.lower, Stmt.lower, lowerDeclarators_flatten declarators]
  | .assign left right _ => rw [Stmt.flatten, Stmt.lower, Stmt.lower, left.lower_flatten, right.lower_flatten]
  | .define name fn _ => rw [Stmt.flatten, Stmt.lower, Stmt.lower, fn.lowerBody_flatten]
  | .constant name value _ => rw [Stmt.flatten, Stmt.lower, Stmt.lower, value.lower_flatten]
  | .switch subject clauses _ =>
    rw [Stmt.flatten, Stmt.lower, Stmt.lower, subject.lower_flatten, lowerClauses_flatten clauses]
  | .loop init condition step body _ =>
    rw [Stmt.flatten, Stmt.lower, Stmt.lower, init.lower_flatten, condition.lower_flatten,
      step.lower_flatten, body.flatten.lower_asBody, body.lower_flatten]
  | .when condition body _ =>
    rw [Stmt.flatten, Stmt.lower, Stmt.lower, condition.lower_flatten, body.flatten.lower_asBody,
      body.lower_flatten]
  | .branch condition yes no _ =>
    rw [Stmt.flatten, Stmt.lower, Stmt.lower, condition.lower_flatten, yes.flatten.lower_asBody,
      yes.lower_flatten, no.flatten.lower_asBody, no.lower_flatten]
  | .repeatWhile condition body _ =>
    rw [Stmt.flatten, Stmt.lower, Stmt.lower, condition.lower_flatten, body.flatten.lower_asBody,
      body.lower_flatten]
  | .repeatUntil body condition _ =>
    rw [Stmt.flatten, Stmt.lower, Stmt.lower, body.flatten.lower_asBody, body.lower_flatten,
      condition.lower_flatten]
  | .block body _ => rw [Stmt.flatten, Stmt.lower, Stmt.lower, lowerStmts_flatten body]
  | .withEach subject body scope index all loc =>
    rw [Stmt.flatten, Stmt.lower, Stmt.lower, body.flatten.lower_asBody, body.lower_flatten]
  | .returnValue value _ => rw [Stmt.flatten, Stmt.lower, Stmt.lower, value.lower_flatten]
  | .object name parent init create destroy methods _ =>
    rw [Stmt.flatten, Stmt.lower, Stmt.lower, init.lower_flatten]
    simp only [lowerHook_flatten, lowerMethods_flatten]
  | .call callee args isMethod scope loc =>
    rw [Stmt.flatten, Stmt.lower, Stmt.lower, callee.lower_flatten, lowerFurther_flatten args]
  | .rawCall code args _ => rw [Stmt.flatten, Stmt.lower, Stmt.lower, lowerArgs_flatten args]

theorem lowerStmts_flatten (ss : List Stmt) : lowerStmts g (flattenStmts ss) = lowerStmts g ss := by
  match ss with
  | [] => rw [flattenStmts]
  | s :: rest =>
    rw [flattenStmts, lowerStmts_append, lowerStmts_spliced, lowerStmts, s.lower_flatten,
      lowerStmts_flatten rest]

theorem Declarator.lower_flatten (d : Declarator) : d.flatten.lower g = d.lower g := by
  match d with
  | .mk name none ref => rw [Declarator.flatten]
  | .mk name (some value) ref =>
    rw [Declarator.flatten, Declarator.lower, Declarator.lower, value.lower_flatten]

theorem lowerDeclarators_flatten (ds : List Declarator) :
    lowerDeclarators g (flattenDeclarators ds) = lowerDeclarators g ds := by
  match ds with
  | [] => rw [flattenDeclarators]
  | [d] =>
    rw [flattenDeclarators, flattenDeclarators, lowerDeclarators, lowerDeclarators, d.lower_flatten]
  | d :: e :: rest =>
    have hRest := lowerDeclarators_flatten (e :: rest)
    rw [flattenDeclarators] at hRest
    simp only [flattenDeclarators, lowerDeclarators, hRest, d.lower_flatten]

theorem Clause.lower_flatten (c : Clause) : c.flatten.lower g = c.lower g := by
  match c with
  | .case value body =>
    rw [Clause.flatten, Clause.lower, Clause.lower, value.lower_flatten, body.flatten.lower_asBody,
      body.lower_flatten]
  | .default body =>
    rw [Clause.flatten, Clause.lower, Clause.lower, body.flatten.lower_asBody, body.lower_flatten]

theorem lowerClauses_flatten (cs : List Clause) : lowerClauses g (flattenClauses cs) = lowerClauses g cs := by
  match cs with
  | [] => rw [flattenClauses]
  | c :: rest => rw [flattenClauses, lowerClauses, lowerClauses, c.lower_flatten, lowerClauses_flatten rest]

theorem lowerHook_flatten (form : Form) (self name : String) (fn : Option Function) :
    lowerHook g form self name (flattenFunction? fn) = lowerHook g form self name fn := by
  match fn with
  | none => rw [flattenFunction?]
  | some fn => rw [flattenFunction?, lowerHook, lowerHook, fn.lower_flatten]

theorem lowerMethods_flatten (form : Form) (self : String) (ms : List Method) :
    lowerMethods g form self (flattenMethods ms) = lowerMethods g form self ms := by
  match ms with
  | [] => rw [flattenMethods]
  | .mk name fn :: rest =>
    rw [flattenMethods, lowerMethods, lowerMethods, fn.lower_flatten, lowerMethods_flatten form self rest]
end

/-! ## The same mentions -/

mutual
theorem Expr.mentions_flatten (e : Expr) : e.flatten.mentions = e.mentions := by
  match e with
  | .identifier .. | .number .. | .string .. | .raw .. => rw [Expr.flatten]
  | .binary op left right _ =>
    rw [Expr.flatten, Expr.mentions, Expr.mentions, left.mentions_flatten, right.mentions_flatten]
  | .unary op operand _ => rw [Expr.flatten, Expr.mentions, Expr.mentions, operand.mentions_flatten]
  | .index base indexes _ | .call base indexes .. =>
    rw [Expr.flatten, Expr.mentions, Expr.mentions, base.mentions_flatten, exprsMentions_flatten indexes]
  | .closure fn loc => rw [Expr.flatten, Expr.mentions, Expr.mentions, fn.mentions_flatten]
  | .rawCall code args _ => rw [Expr.flatten, Expr.mentions, Expr.mentions, exprsMentions_flatten args]

theorem exprsMentions_flatten (es : List Expr) : exprsMentions (flattenExprs es) = exprsMentions es := by
  match es with
  | [] => rw [flattenExprs]
  | e :: rest =>
    rw [flattenExprs, exprsMentions, exprsMentions, e.mentions_flatten, exprsMentions_flatten rest]

theorem Function.mentions_flatten (fn : Function) (loc : Option Location) :
    fn.flatten.mentions loc = fn.mentions loc := by
  match fn with
  | .mk params body scope =>
    rw [Function.flatten, Function.mentions, Function.mentions, body.flatten.mentions_asBody,
      body.mentions_flatten]

theorem functionMentions?_flatten (fn : Option Function) (loc : Option Location) :
    functionMentions? loc (flattenFunction? fn) = functionMentions? loc fn := by
  match fn with
  | none => rw [flattenFunction?]
  | some fn => rw [flattenFunction?, functionMentions?, functionMentions?, fn.mentions_flatten]

theorem Stmt.mentions_flatten (s : Stmt) : s.flatten.mentions = s.mentions := by
  match s with
  | .breakLoop _ | .continueLoop _ | .exit _ | .nop _ => rw [Stmt.flatten]
  | .declare declarators _ =>
    rw [Stmt.flatten, Stmt.mentions, Stmt.mentions, declaratorsMentions_flatten declarators]
  | .assign left right _ =>
    rw [Stmt.flatten, Stmt.mentions, Stmt.mentions, left.mentions_flatten, right.mentions_flatten]
  | .define name fn _ => rw [Stmt.flatten, Stmt.mentions, Stmt.mentions, fn.mentions_flatten]
  | .constant name value _ => rw [Stmt.flatten, Stmt.mentions, Stmt.mentions, value.mentions_flatten]
  | .switch subject clauses _ =>
    rw [Stmt.flatten, Stmt.mentions, Stmt.mentions, subject.mentions_flatten, clausesMentions_flatten clauses]
  | .loop init condition step body _ =>
    rw [Stmt.flatten, Stmt.mentions, Stmt.mentions, init.mentions_flatten, condition.mentions_flatten,
      step.mentions_flatten, body.flatten.mentions_asBody, body.mentions_flatten]
  | .when condition body _ | .repeatWhile condition body _ | .repeatUntil body condition _ =>
    rw [Stmt.flatten, Stmt.mentions, Stmt.mentions, condition.mentions_flatten,
      body.flatten.mentions_asBody, body.mentions_flatten]
  | .branch condition yes no _ =>
    rw [Stmt.flatten, Stmt.mentions, Stmt.mentions, condition.mentions_flatten,
      yes.flatten.mentions_asBody, yes.mentions_flatten, no.flatten.mentions_asBody, no.mentions_flatten]
  | .block body _ => rw [Stmt.flatten, Stmt.mentions, Stmt.mentions, stmtsMentions_flatten body]
  | .withEach subject body scope index all loc =>
    rw [Stmt.flatten, Stmt.mentions, Stmt.mentions, subject.mentions_flatten,
      body.flatten.mentions_asBody, body.mentions_flatten]
  | .returnValue value _ => rw [Stmt.flatten, Stmt.mentions, Stmt.mentions, value.mentions_flatten]
  | .object name parent init create destroy methods _ =>
    rw [Stmt.flatten, Stmt.mentions, Stmt.mentions, init.mentions_flatten,
      functionMentions?_flatten create, functionMentions?_flatten destroy, methodsMentions_flatten methods]
  | .call callee args isMethod scope loc =>
    rw [Stmt.flatten, Stmt.mentions, Stmt.mentions, callee.mentions_flatten, exprsMentions_flatten args]
  | .rawCall code args _ => rw [Stmt.flatten, Stmt.mentions, Stmt.mentions, exprsMentions_flatten args]

theorem stmtsMentions_flatten (ss : List Stmt) : stmtsMentions (flattenStmts ss) = stmtsMentions ss := by
  match ss with
  | [] => rw [flattenStmts]
  | s :: rest =>
    rw [flattenStmts, stmtsMentions_append, stmtsMentions_spliced, stmtsMentions, s.mentions_flatten,
      stmtsMentions_flatten rest]

theorem Declarator.mentions_flatten (d : Declarator) (loc : Option Location) :
    d.flatten.mentions loc = d.mentions loc := by
  match d with
  | .mk name none ref => rw [Declarator.flatten]
  | .mk name (some value) ref =>
    rw [Declarator.flatten, Declarator.mentions, Declarator.mentions, value.mentions_flatten]

theorem declaratorsMentions_flatten (ds : List Declarator) (loc : Option Location) :
    declaratorsMentions loc (flattenDeclarators ds) = declaratorsMentions loc ds := by
  match ds with
  | [] => rw [flattenDeclarators]
  | d :: rest =>
    rw [flattenDeclarators, declaratorsMentions, declaratorsMentions, d.mentions_flatten,
      declaratorsMentions_flatten rest]

theorem Clause.mentions_flatten (c : Clause) : c.flatten.mentions = c.mentions := by
  match c with
  | .case value body =>
    rw [Clause.flatten, Clause.mentions, Clause.mentions, value.mentions_flatten,
      body.flatten.mentions_asBody, body.mentions_flatten]
  | .default body =>
    rw [Clause.flatten, Clause.mentions, Clause.mentions, body.flatten.mentions_asBody, body.mentions_flatten]

theorem clausesMentions_flatten (cs : List Clause) :
    clausesMentions (flattenClauses cs) = clausesMentions cs := by
  match cs with
  | [] => rw [flattenClauses]
  | c :: rest =>
    rw [flattenClauses, clausesMentions, clausesMentions, c.mentions_flatten, clausesMentions_flatten rest]

theorem methodsMentions_flatten (ms : List Method) (loc : Option Location) :
    methodsMentions loc (flattenMethods ms) = methodsMentions loc ms := by
  match ms with
  | [] => rw [flattenMethods]
  | .mk name fn :: rest =>
    rw [flattenMethods, methodsMentions, methodsMentions, Method.mentions, Method.mentions,
      fn.mentions_flatten, methodsMentions_flatten rest]
end

/-! ## The same compilation -/

namespace Program

theorem mentions_flatten (p : Program) : p.flatten.mentions = p.mentions := by
  rw [mentions, mentions, flatten, stmtsMentions_flatten]

theorem lower_flatten (p : Program) (t : Tree) (options : Options) :
    p.flatten.lower t options = p.lower t options := by
  have hModule : ∀ g, p.flatten.lowerModule g = p.lowerModule g := by
    intro g
    rw [lowerModule, lowerModule, flatten, lowerStmts_flatten]
  rw [lower, lower, hModule]

end Program

namespace Document

theorem compile_flatten (d : Document) (registry : Registry) (options : Options) :
    (Document.mk d.scopes d.program.flatten).compile registry options = d.compile registry options := by
  have hValidate : d.program.flatten.validate = d.program.validate := by
    funext t
    rw [Program.validate, Program.validate, Program.mentions_flatten]
  have hTree : (Document.mk d.scopes d.program.flatten).scopeTree registry options =
      d.scopeTree registry options := by
    simp only [scopeTree, arena, build, hValidate]
  simp only [compile, hTree, Program.lower_flatten]

/-- Documents that differ in nested blocks, no-ops and missing `else` branches only compile to the same
text or fail with the same error. -/
theorem compile_eq_of_flatten_eq {d e : Document} (hScopes : d.scopes = e.scopes)
    (hProgram : d.program.flatten = e.program.flatten) (registry : Registry) (options : Options) :
    d.compile registry options = e.compile registry options := by
  rw [← d.compile_flatten, ← e.compile_flatten, hScopes, hProgram]

/-- A loop in a block, with an `if` as its body and a block in its header. -/
def nestedLoop : Document where
  scopes := [⟨0, .function, []⟩]
  program := ⟨[.block [.nop none, .loop (.block [.block [.breakLoop none] none] none) (.raw "c" none)
    (.nop none) (.when (.raw "d" none) (.exit none) none) none] none], 1⟩

/-- The same loop without the blocks around it; the block in its header stays. -/
def flatLoop : Document where
  scopes := [⟨0, .function, []⟩]
  program := ⟨[.loop (.block [.breakLoop none, .nop none] none) (.raw "c" none) (.nop none)
    (.block [.branch (.raw "d" none) (.block [.nop none, .exit none] none) (.nop none) none] none) none], 1⟩

theorem nestedLoop_compiles_like_flatLoop :
    nestedLoop.program.flatten = flatLoop.program.flatten ∧
      nestedLoop.compile .builtin {} = flatLoop.compile .builtin {} := by
  have hScopes : nestedLoop.scopes = flatLoop.scopes := rfl
  have hProgram : nestedLoop.program.flatten = flatLoop.program.flatten := by rfl
  exact ⟨hProgram, compile_eq_of_flatten_eq hScopes hProgram .builtin {}⟩

end Document
end TreeLowering

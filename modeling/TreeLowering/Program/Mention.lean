import TreeLowering.Program.Node
import TreeLowering.Scope.Lookup

/-! # What a program mentions: scope ids and references

A program is valid in a scope tree when everything it mentions exists there. The first mention
that does not exist, in the order of `mentions`, is the one that is reported. -/
namespace TreeLowering
set_option autoImplicit false

/-- A scope or a binding that a node relies on, with the position of the node. -/
inductive Mention where
  | scope (id : Nat) (loc : Option Location)
  | reference (ref : Reference) (loc : Option Location)
deriving DecidableEq

namespace Mention

def ofReference? (ref : Option Reference) (loc : Option Location) : List Mention :=
  match ref with
  | some r => [reference r loc]
  | none => []

/-- Whether the mentioned scope or binding exists. -/
def existsIn (t : Tree) : Mention → Bool
  | scope id _ => t.containsScope id
  | reference ref _ => (t.reference? ref).isSome

def failure : Mention → Failure
  | scope id loc => .fault (.danglingScope id) loc
  | reference ref loc => .fault (.danglingReference ref) loc

def check (t : Tree) (m : Mention) : Result Unit :=
  if m.existsIn t then pure () else throw m.failure

theorem check_eq_ok_iff (t : Tree) (m : Mention) : m.check t = .ok () ↔ m.existsIn t = true := by
  unfold check
  split <;> simp_all [pure, Except.pure, throw, throwThe, MonadExceptOf.throw]

end Mention

mutual
def Expr.mentions : Expr → List Mention
  | .identifier _ ref loc => Mention.ofReference? ref loc
  | .binary _ left right _ => left.mentions ++ right.mentions
  | .unary _ operand _ => operand.mentions
  | .number .. | .string .. | .raw .. => []
  | .index base indexes _ => base.mentions ++ exprsMentions indexes
  | .call callee args _ scope loc => .scope scope loc :: (callee.mentions ++ exprsMentions args)
  | .closure fn loc => fn.mentions loc
  | .rawCall _ args _ => exprsMentions args

def exprsMentions : List Expr → List Mention
  | [] => []
  | e :: rest => e.mentions ++ exprsMentions rest

/-- The scope of a function is mentioned by the node that holds the function. -/
def Function.mentions (loc : Option Location) : Function → List Mention
  | .mk _ body scope => .scope scope loc :: body.mentions

def functionMentions? (loc : Option Location) : Option Function → List Mention
  | some fn => fn.mentions loc
  | none => []

def Stmt.mentions : Stmt → List Mention
  | .declare declarators loc => declaratorsMentions loc declarators
  | .assign left right _ => left.mentions ++ right.mentions
  | .define _ fn loc => fn.mentions loc
  | .constant _ value _ => value.mentions
  | .switch subject clauses _ => subject.mentions ++ clausesMentions clauses
  | .loop init condition step body _ =>
    init.mentions ++ condition.mentions ++ step.mentions ++ body.mentions
  | .when condition body _ => condition.mentions ++ body.mentions
  | .branch condition yes no _ => condition.mentions ++ yes.mentions ++ no.mentions
  | .repeatWhile condition body _ => condition.mentions ++ body.mentions
  | .repeatUntil body condition _ => condition.mentions ++ body.mentions
  | .breakLoop _ | .continueLoop _ | .exit _ | .nop _ => []
  | .block body _ => stmtsMentions body
  | .withEach subject body scope index all loc =>
    [.scope scope loc, .reference index loc, .reference all loc]
      ++ subject.mentions ++ body.mentions
  | .returnValue value _ => value.mentions
  | .object _ _ init create destroy methods loc =>
    init.mentions loc ++ functionMentions? loc create ++ functionMentions? loc destroy
      ++ methodsMentions loc methods
  | .call callee args _ scope loc => .scope scope loc :: (callee.mentions ++ exprsMentions args)
  | .rawCall _ args _ => exprsMentions args

def stmtsMentions : List Stmt → List Mention
  | [] => []
  | s :: rest => s.mentions ++ stmtsMentions rest

def Declarator.mentions (loc : Option Location) : Declarator → List Mention
  | .mk _ (some value) ref => Mention.ofReference? ref loc ++ value.mentions
  | .mk _ none ref => Mention.ofReference? ref loc

def declaratorsMentions (loc : Option Location) : List Declarator → List Mention
  | [] => []
  | d :: rest => d.mentions loc ++ declaratorsMentions loc rest

def Clause.mentions : Clause → List Mention
  | .case value body => value.mentions ++ body.mentions
  | .default body => body.mentions

def clausesMentions : List Clause → List Mention
  | [] => []
  | c :: rest => c.mentions ++ clausesMentions rest

def Method.mentions (loc : Option Location) : Method → List Mention
  | .mk _ fn => fn.mentions loc

def methodsMentions (loc : Option Location) : List Method → List Mention
  | [] => []
  | m :: rest => m.mentions loc ++ methodsMentions loc rest
end

namespace Program

def mentions (p : Program) : List Mention := .scope p.scope none :: stmtsMentions p.body

/-- Checks that everything the program mentions exists. -/
def validate (p : Program) (t : Tree) : Result Unit := p.mentions.forM (Mention.check t)

end Program
end TreeLowering

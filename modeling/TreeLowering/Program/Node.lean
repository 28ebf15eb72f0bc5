import TreeLowering.Location
import TreeLowering.Number.Binary64
import TreeLowering.Program.Operator
import TreeLowering.Scope.Reference

/-! # Nodes of a scope-annotated program

Scope ids and references are those that the producer of the tree attached. `loc` is a position
for diagnostics. -/
namespace TreeLowering
set_option autoImplicit false

mutual
inductive Expr where
  /-- A name; without a binding it is passed through as written. -/
  | identifier (name : String) (ref : Option Reference) (loc : Option Location)
  | binary (op : BinaryOp) (left right : Expr) (loc : Option Location)
  | unary (op : UnaryOp) (operand : Expr) (loc : Option Location)
  | number (value : Binary64) (loc : Option Location)
  | string (value : String) (loc : Option Location)
  | index (base : Expr) (indexes : List Expr) (loc : Option Location)
  /-- A call; the caller's `self` and `other` are looked up from `scope`. -/
  | call (callee : Expr) (args : List Expr) (isMethod : Bool) (scope : Nat) (loc : Option Location)
  | closure (fn : Function) (loc : Option Location)
  /-- Target code called with arguments. -/
  | rawCall (code : String) (args : List Expr) (loc : Option Location)
  /-- Target code taken as it is. -/
  | raw (code : String) (loc : Option Location)

/-- Parameters, body and scope of a function. -/
inductive Function where
  | mk (params : List String) (body : Stmt) (scope : Nat)

inductive Stmt where
  | declare (declarators : List Declarator) (loc : Option Location)
  | assign (left right : Expr) (loc : Option Location)
  | define (name : String) (fn : Function) (loc : Option Location)
  | constant (name : String) (value : Expr) (loc : Option Location)
  | switch (subject : Expr) (clauses : List Clause) (loc : Option Location)
  | loop (init : Stmt) (condition : Expr) (step body : Stmt) (loc : Option Location)
  | when (condition : Expr) (body : Stmt) (loc : Option Location)
  | branch (condition : Expr) (yes no : Stmt) (loc : Option Location)
  | repeatWhile (condition : Expr) (body : Stmt) (loc : Option Location)
  | repeatUntil (body : Stmt) (condition : Expr) (loc : Option Location)
  | breakLoop (loc : Option Location)
  | continueLoop (loc : Option Location)
  | block (body : List Stmt) (loc : Option Location)
  /-- Runs the body for every instance of a kind of object, with `self` of `scope` rebound. -/
  | withEach (subject : Expr) (body : Stmt) (scope : Nat) (index all : Reference)
    (loc : Option Location)
  | returnValue (value : Expr) (loc : Option Location)
  | exit (loc : Option Location)
  | object (name parent : String) (init : Function) (create destroy : Option Function)
    (methods : List Method) (loc : Option Location)
  | nop (loc : Option Location)
  | call (callee : Expr) (args : List Expr) (isMethod : Bool) (scope : Nat) (loc : Option Location)
  | rawCall (code : String) (args : List Expr) (loc : Option Location)

/-- One name of a declaration, with its initial value. -/
inductive Declarator where
  | mk (name : String) (value : Option Expr) (ref : Option Reference)

inductive Clause where
  | case (value : Expr) (body : Stmt)
  | default (body : Stmt)

inductive Method where
  | mk (name : String) (fn : Function)
end

instance : Inhabited Expr := ⟨.raw "" none⟩

instance : Inhabited Stmt := ⟨.nop none⟩

/-- The statements of a compilation unit and the scope they run in. -/
structure Program where
  body : List Stmt
  scope : Nat

/-- The tag that documents use for a kind of statement. -/
def Stmt.tag : Stmt → String
  | declare .. => "var"
  | assign .. => "assign"
  | define .. => "scriptdef"
  | constant .. => "const"
  | switch .. => "switch"
  | loop .. => "for"
  | when .. => "if"
  | branch .. => "ifelse"
  | repeatWhile .. => "while"
  | repeatUntil .. => "dountil"
  | breakLoop .. => "break"
  | continueLoop .. => "continue"
  | block .. => "statements"
  | withEach .. => "with"
  | returnValue .. => "return"
  | exit .. => "exit"
  | object .. => "object"
  | nop .. => "nop"
  | call .. => "funccall"
  | rawCall .. => "jsfunccall"

end TreeLowering

import TreeLowering.Emit.Shape
import TreeLowering.Number.Notation
import TreeLowering.Program.Node

/-! # Lowering: the emission of every kind of node -/
namespace TreeLowering
set_option autoImplicit false

open Emit

mutual
def Expr.lower (g : Setting) : Expr → Emit Unit
  | .identifier name ref _ => do print (← query (g.identifierText name ref))
  | .binary op left right _ => Emit.binary op (left.lower g) (right.lower g)
  | .unary op operand _ => Emit.unary op (operand.lower g)
  | .number value _ => parens (print value.literal)
  | .string value _ => print (Quoted.quote value)
  | .index base indexes _ => do
    parens (base.lower g)
    lowerIndexes g indexes
  | .call callee args isMethod scope loc =>
    Emit.call g (callee.lower g) (lowerFurther g args) isMethod scope loc
  | .closure fn _ => fn.lower g
  | .rawCall code args _ => Emit.rawCall code (lowerArgs g args)
  | .raw code _ => print code

def lowerIndexes (g : Setting) : List Expr → Emit Unit
  | [] => pure ()
  | e :: rest => do
    print "["
    e.lower g
    print "]"
    lowerIndexes g rest

/-- Arguments that follow others. -/
def lowerFurther (g : Setting) : List Expr → Emit Unit
  | [] => pure ()
  | e :: rest => do
    print ", "
    e.lower g
    lowerFurther g rest

def lowerArgs (g : Setting) : List Expr → Emit Unit
  | [] => pure ()
  | e :: rest => do
    e.lower g
    lowerFurther g rest

/-- Parameters and body of a function. -/
def Function.lowerBody (g : Setting) : Function → Emit Unit
  | .mk params body scope => functionBody g params scope (body.lower g .full)

/-- A function as an expression. -/
def Function.lower (g : Setting) : Function → Emit Unit
  | .mk params body scope => do
    print "function"
    functionBody g params scope (body.lower g .full)

def Stmt.lower (g : Setting) (form : Form) : Stmt → Emit Unit
  | .declare declarators _ => statement form do
    print "var "
    lowerDeclarators g declarators
  | .assign left right _ => statement form do
    left.lower g
    print " = "
    right.lower g
  | .define name fn _ => statement form do
    print (g.runtime.globalsIdentifier ++ "." ++ name ++ " = function")
    fn.lowerBody g
  | .constant name value _ => statement form do
    print (g.runtime.globalsIdentifier ++ "." ++ name ++ " = ")
    value.lower g
  | .switch subject clauses _ =>
    statement form (guarded form "switch" (subject.lower g) (lowerClauses g clauses))
  | .loop init condition step body _ =>
    statement form (Emit.loop form (init.lower g .inline) (condition.lower g)
      (step.lower g .inline) (body.lower g .full))
  | .when condition body _ =>
    statement form (Emit.branch form (condition.lower g) (body.lower g .full) (pure ()))
  | .branch condition yes no _ =>
    statement form (Emit.branch form (condition.lower g) (yes.lower g .full) (no.lower g .full))
  | .repeatWhile condition body _ =>
    statement form (guarded form "while" (condition.lower g) (body.lower g .full))
  | .repeatUntil body condition _ =>
    statement form (Emit.repeatUntil form (body.lower g .full) (condition.lower g))
  | .breakLoop _ => statement form (print "break")
  | .continueLoop _ => statement form (print "continue")
  | .block body _ => lowerStmts g body
  | .withEach _ body scope index all loc =>
    Emit.withEach g form scope index all loc (body.lower g .full)
  | .returnValue value _ => statement form do
    print "return "
    parens (value.lower g)
  | .exit _ => statement form (print "return")
  | .object name parent init create destroy methods _ =>
    statement form (Emit.object g form name parent fun self => do
      member form self g.runtime.initPropertiesMethod (init.lower g)
      lowerHook g form self g.runtime.createMethod create
      lowerHook g form self g.runtime.destroyMethod destroy
      lowerMethods g form self methods)
  | .nop _ => pure ()
  | .call callee args isMethod scope loc =>
    statement form (Emit.call g (callee.lower g) (lowerFurther g args) isMethod scope loc)
  | .rawCall code args _ => statement form (Emit.rawCall code (lowerArgs g args))

def lowerStmts (g : Setting) : List Stmt → Emit Unit
  | [] => pure ()
  | s :: rest => do
    s.lower g .full
    lowerStmts g rest

def Declarator.lower (g : Setting) : Declarator → Emit Unit
  | .mk name none ref => do print (← query (g.declaredName name ref))
  | .mk name (some value) ref => do
    print (← query (g.declaredName name ref))
    print " = "
    value.lower g

def lowerDeclarators (g : Setting) : List Declarator → Emit Unit
  | [] => pure ()
  | [d] => d.lower g
  | d :: rest => do
    d.lower g
    print ", "
    lowerDeclarators g rest

def Clause.lower (g : Setting) : Clause → Emit Unit
  | .case value body => Emit.clause (do print "case "; parens (value.lower g)) (body.lower g .full)
  | .default body => Emit.clause (print "default") (body.lower g .full)

def lowerClauses (g : Setting) : List Clause → Emit Unit
  | [] => pure ()
  | c :: rest => do
    c.lower g
    lowerClauses g rest

/-- A member that an object may leave out. -/
def lowerHook (g : Setting) (form : Form) (self name : String) : Option Function → Emit Unit
  | none => pure ()
  | some fn => member form self name (fn.lower g)

def lowerMethods (g : Setting) (form : Form) (self : String) : List Method → Emit Unit
  | [] => pure ()
  | .mk name fn :: rest => do
    member form self name (fn.lower g)
    lowerMethods g form self rest
end

namespace Program

/-- The module around a program: its directive, its two imports, its locals and statements. -/
def lowerModule (p : Program) (g : Setting) : Emit Unit := do
  let r := g.runtime
  print "define(function(require) \x7b\n"
  braced (do
    line "\"use strict\";"
    line ("var " ++ r.globalsIdentifier ++ " = require(" ++ Quoted.quote r.globalsModule ++ ");")
    line ("var " ++ r.runtimeIdentifier ++ " = require(" ++ Quoted.quote r.runtimeModule ++ ");")
    g.localAllocation p.scope
    lowerStmts g p.body) true
  print ");"

/-- The text of the module. -/
def lower (p : Program) (t : Tree) (options : Options) : Result String :=
  match p.lowerModule ⟨t, options.runtime⟩ (Sink.empty options.indent) with
  | .ok _ sink => pure sink.text
  | .error e _ => throw e

end Program
end TreeLowering

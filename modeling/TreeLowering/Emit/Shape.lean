import TreeLowering.Emit.Setting
import TreeLowering.Program.Operator
import TreeLowering.Text.Quoted

/-! # The shapes of emitted code

Each shape is given the emissions of its parts. Expressions are printed with all their
parentheses, so they can stand in any place. -/
namespace TreeLowering
set_option autoImplicit false

/-- What is printed around the operands of a binary operator. The logical operators evaluate both
operands and give a number. -/
def BinaryOp.frame : BinaryOp → String × String × String
  | member => ("", ".", "")
  | intDiv => ("((", " / ", ")|0)")
  | mod => ("(", " % ", ")")
  | or => ("(!!(!!( ", " )+!!( ", " ))|0)")
  | and => ("(!!( ", " )*!!( ", " ))")
  | xor => ("(!((!( ", " )+!( ", " ))-1)|0)")
  | op => ("(", " " ++ op.symbol ++ " ", ")")

/-- How a statement is printed: on lines of its own, or inside the header of a loop. -/
structure Form where
  omitTerminator : Bool
  omitIndentation : Bool
deriving DecidableEq, Inhabited

namespace Form

/-- On lines of its own. -/
def full : Form := ⟨false, false⟩

/-- Inside the header of a loop. -/
def inline : Form := ⟨true, true⟩

end Form

namespace Emit

def binary (op : BinaryOp) (left right : Emit Unit) : Emit Unit := do
  print op.frame.1
  left
  print op.frame.2.1
  right
  print op.frame.2.2

def unary (op : UnaryOp) (operand : Emit Unit) : Emit Unit := do
  print "("
  print op.symbol
  operand
  print ")"

/-- An expression in parentheses. -/
def parens (e : Emit Unit) : Emit Unit := do
  print "("
  e
  print ")"

/-- A call: a plain one hands on the caller's `self` and `other`, a method call only `other`. -/
def call (g : Setting) (callee args : Emit Unit) (isMethod : Bool) (scope : Nat)
    (loc : Option Location) : Emit Unit := do
  parens callee
  let other ← query (g.receiver scope Setting.otherName loc)
  if isMethod then
    print "("
    print (← query (g.tree.bindingText other))
  else
    let this ← query (g.receiver scope Setting.selfName loc)
    print ".call("
    print (← query (g.tree.bindingText this))
    print ", "
    print (← query (g.tree.bindingText other))
  args
  print ")"

def rawCall (code : String) (args : Emit Unit) : Emit Unit := do
  print "("
  print code
  print ")("
  args
  print ")"

/-- Parameters, local declarations and body of a function. -/
def functionBody (g : Setting) (params : List String) (scope : Nat) (lines : Emit Unit) :
    Emit Unit := do
  print "("
  print (Text.join ", " (← query (g.parameterNames params scope)))
  print ") \x7b\n"
  braced (do g.localAllocation scope; lines) false

/-- A statement: its indentation, itself and its terminator. -/
def statement (form : Form) (e : Emit Unit) : Emit Unit := do
  indentUnless form.omitIndentation
  e
  if form.omitTerminator then pure () else print ";\n"

/-- A header with an expression in parentheses, and a block. -/
def guarded (form : Form) (keyword : String) (condition lines : Emit Unit) : Emit Unit := do
  print (keyword ++ "(")
  condition
  print ") \x7b\n"
  braced lines form.omitIndentation

def branch (form : Form) (condition yes no : Emit Unit) : Emit Unit := do
  guarded form "if" condition yes
  print " else \x7b\n"
  braced no form.omitIndentation

def loop (form : Form) (init condition step lines : Emit Unit) : Emit Unit := do
  print "for("
  init
  print "; "
  condition
  print "; "
  step
  print ") \x7b\n"
  braced lines form.omitIndentation

def repeatUntil (form : Form) (lines condition : Emit Unit) : Emit Unit := do
  print "do \x7b\n"
  braced lines form.omitIndentation
  print " while(!("
  condition
  print "))"

/-- A labelled part of a switch. -/
def clause (label lines : Emit Unit) : Emit Unit := do
  printIndent
  label
  print ":\n"
  indent
  lines
  outdent

/-- A counted loop over all instances, with the inner `self` set each time. -/
def withEach (g : Setting) (form : Form) (scope : Nat) (index all : Reference)
    (loc : Option Location) (lines : Emit Unit) : Emit Unit := do
  let i ← query (g.referenceText index)
  let objects ← query (g.referenceText all)
  let this ← query (g.innerSelf scope loc)
  statement form do
    print ("for(" ++ i ++ " = 0; " ++ i ++ " < " ++ objects ++ ".length; " ++ i ++ "++) \x7b\n")
    braced (do
      indentUnless form.omitIndentation
      print (this ++ " = " ++ objects ++ "[" ++ i ++ "];\n")
      lines) form.omitIndentation

/-- A function as a member of an object's prototype. -/
def member (form : Form) (object name : String) (closure : Emit Unit) : Emit Unit := do
  indentUnless form.omitIndentation
  print (object ++ ".prototype." ++ name ++ " = ")
  closure
  print ";\n"

/-- The registration of an object; `members` prints the members of its prototype. -/
def object (g : Setting) (form : Form) (name parent : String) (members : String → Emit Unit) :
    Emit Unit := do
  let r := g.runtime
  let self := r.globalsIdentifier ++ "." ++ name
  let super := r.globalsIdentifier ++ "." ++ parent
  print (r.runtimeIdentifier ++ "." ++ r.createObject ++ "(" ++ Quoted.quote name ++ ", "
    ++ Quoted.quote parent ++ ", function() \x7b\n")
  braced (do
    indentUnless form.omitIndentation
    print (self ++ " = function() \x7b " ++ super ++ ".apply(this, arguments); \x7d;\n")
    indentUnless form.omitIndentation
    print (r.runtimeIdentifier ++ "." ++ r.inherit ++ "(" ++ self ++ ", " ++ super ++ ");\n")
    members self) form.omitIndentation
  print ")"

end Emit
end TreeLowering

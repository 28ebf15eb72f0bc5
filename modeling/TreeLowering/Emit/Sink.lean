import TreeLowering.Fault

/-! # The text sink: printed text and an indentation level -/
namespace TreeLowering
set_option autoImplicit false

structure Sink where
  /-- One level of indentation. -/
  unit : String
  level : Nat
  text : String
deriving DecidableEq, Inhabited

/-- Emission into a sink; what was printed before a failure stays. -/
abbrev Emit (α : Type) : Type := EStateM Failure Sink α

namespace Sink

def empty (unit : String) : Sink := ⟨unit, 0, ""⟩

/-- A sink with nothing printed, at a level. -/
def atLevel (unit : String) (level : Nat) : Sink := ⟨unit, level, ""⟩

/-- The indentation of the current level. -/
def indentation (k : Sink) : String := String.join (List.replicate k.level k.unit)

end Sink

namespace Emit

def print (s : String) : Emit Unit := modify fun k => { k with text := k.text ++ s }

def indent : Emit Unit := modify fun k => { k with level := k.level + 1 }

/-- Leaves a level; there is none below the first. -/
def outdent : Emit Unit := do
  match (← get).level with
  | 0 => fail .indentUnderflow
  | level + 1 => modify fun k => { k with level := level }

def printIndent : Emit Unit := do
  print (← get).indentation

@[simp] theorem print_apply (s : String) (k : Sink) :
    print s k = .ok () { k with text := k.text ++ s } := rfl

@[simp] theorem indent_apply (k : Sink) : indent k = .ok () { k with level := k.level + 1 } := rfl

theorem outdent_apply_zero {k : Sink} (h : k.level = 0) :
    outdent k = .error (.fault .indentUnderflow none) k := by
  cases k
  cases h
  rfl

theorem outdent_apply_succ {k : Sink} {level : Nat} (h : k.level = level + 1) :
    outdent k = .ok () { k with level := level } := by
  cases k
  cases h
  rfl

@[simp] theorem printIndent_apply (k : Sink) :
    printIndent k = .ok () { k with text := k.text ++ k.indentation } := rfl

/-- A line of its own at the current level. -/
def line (s : String) : Emit Unit := do
  printIndent
  print s
  print "\n"

/-- Uses a value that is found without printing. -/
def query {α : Type} (r : Result α) : Emit α := fun k =>
  match r with
  | .ok a => .ok a k
  | .error e => .error e k

@[simp] theorem query_ok {α : Type} (a : α) (k : Sink) : query (.ok a) k = .ok a k := rfl

@[simp] theorem query_error {α : Type} (e : Failure) (k : Sink) :
    query (.error e : Result α) k = .error e k := rfl

/-- Indentation that is left out in the header of a loop. -/
def indentUnless (omitted : Bool) : Emit Unit := if omitted then pure () else printIndent

/-- The lines of a block whose opening brace ends the current line. -/
def braced (lines : Emit Unit) (omitIndentation : Bool) : Emit Unit := do
  indent
  lines
  outdent
  indentUnless omitIndentation
  print "\x7d"

end Emit
end TreeLowering

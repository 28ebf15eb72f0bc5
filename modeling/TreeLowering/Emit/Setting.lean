import TreeLowering.Emit.Sink
import TreeLowering.Options
import TreeLowering.Scope.Lookup

/-! # What lowering reads: the finished scope tree and the runtime contract -/
namespace TreeLowering
set_option autoImplicit false

structure Setting where
  tree : Tree
  runtime : Contract

namespace Setting

/-- The text of a reference to a binding. -/
def referenceText (g : Setting) (ref : Reference) : Result String := do
  let b ← g.tree.resolveReference ref
  g.tree.bindingText b

/-- An identifier is the text of its binding, or is passed through without one. -/
def identifierText (g : Setting) (name : String) : Option Reference → Result String
  | some ref => g.referenceText ref
  | none => pure name

/-- A declared name is the target of its binding, or is passed through without one. -/
def declaredName (g : Setting) (name : String) : Option Reference → Result String
  | some ref => do
    let b ← g.tree.resolveReference ref
    g.tree.targetIdentifier b
  | none => pure name

/-- The caller's binding of a name, looked for outward from the scope of the call. -/
def receiver (g : Setting) (scope : Nat) (name : String) (loc : Option Location) : Result Nat := do
  g.tree.checkScope scope
  match g.tree.nearest? scope name with
  | some b => pure b
  | none => throw (.fault (.unresolved name .receiver) loc)

/-- The target of the binding that a scope itself has for a name, or the name. -/
def localTargetOrName (g : Setting) (scope : Nat) (name : String) : Result String := do
  match ← g.tree.lookupLocal scope name with
  | some b => g.tree.targetIdentifier b
  | none => pure name

/-- The name of a caller in source text, which every function takes as its first parameter. -/
def otherName : String := "other"

def selfName : String := "self"

/-- The parameters of a function: the caller first, then those written. -/
def parameterNames (g : Setting) (params : List String) (scope : Nat) : Result (List String) :=
  (otherName :: params).mapM (g.localTargetOrName scope)

/-- The `self` that a scope itself binds, for a node at a position. -/
def innerSelf (g : Setting) (scope : Nat) (loc : Option Location) : Result String := do
  match ← g.tree.lookupLocal scope selfName with
  | some b => g.tree.bindingText b
  | none => throw (.fault (.unresolved selfName .innerSelf) loc)

/-- The targets that the function around a scope declares. -/
def localNames (g : Setting) (scope : Nat) : Result (List String) := do
  let f ← g.tree.functionScopeOf scope
  let bs ← g.tree.hoistedBindings f
  bs.mapM g.tree.targetIdentifier

/-- One line that declares all locals of the function around a scope; none without locals. -/
def localAllocation (g : Setting) (scope : Nat) : Emit Unit := do
  let names ← Emit.query (g.localNames scope)
  if names.isEmpty then pure ()
  else
    Emit.printIndent
    Emit.print ("var " ++ Text.join ", " names ++ ";\n")

end Setting
end TreeLowering

import TreeLowering.Scope.Tree

/-! # Checked access to the scope tree

These fail with `outOfRange` when an id names no scope or binding. -/
namespace TreeLowering.Tree
set_option autoImplicit false

def checkScope (t : Tree) (s : Nat) : Result Unit :=
  if t.containsScope s then pure () else throw .outOfRange

def checkBinding (t : Tree) (b : Nat) : Result Unit :=
  if t.containsBinding b then pure () else throw .outOfRange

/-- The binding of a name in this scope only. -/
def lookupLocal (t : Tree) (s : Nat) (name : String) : Result (Option Nat) := do
  t.checkScope s
  pure (t.named? s name)

/-- The binding of a name, looked for outward from a scope. -/
def lookupChain (t : Tree) (s : Nat) (name : String) : Result Nat := do
  t.checkScope s
  match t.nearest? s name with
  | some b => pure b
  | none => fail (.unresolved name .chain)

def localBindings (t : Tree) (s : Nat) : Result (List Nat) := do
  t.checkScope s
  pure (t.locals s)

def hoistedBindings (t : Tree) (f : Nat) : Result (List Nat) := do
  t.checkScope f
  pure (t.hoisted f)

def functionScopeOf (t : Tree) (s : Nat) : Result Nat := do
  t.checkScope s
  pure (t.functionScope s)

/-- The binding that a reference of a document points at, in the reference's own scope. -/
def reference? (t : Tree) : Reference → Option Nat
  | .named s name => t.named? s name
  | .slot s i => (t.visible s)[i]?

/-- Resolves a reference; a missing scope and a missing binding are told apart. -/
def resolveReference (t : Tree) (ref : Reference) : Result Nat :=
  if t.containsScope ref.scope then
    match t.reference? ref with
    | some b => pure b
    | none => fail (.unresolved ref.render .reference)
  else fail (.missingScope ref)

def resolveBinding (t : Tree) (b : Nat) : Result Nat := do
  t.checkBinding b
  pure (t.resolve b)

/-- The variable behind an existing binding. -/
def variableOf (t : Tree) (b : Nat) : Result Variable :=
  match t.variableBehind? b with
  | some v => pure v
  | none => throw .outOfRange

/-- The target name of a binding, read through links. -/
def targetIdentifier (t : Tree) (b : Nat) : Result String := do
  match (← t.variableOf b).target.name? with
  | some name => pure name
  | none => fail (.readBeforeAssigned (t.identifier? b))

/-- The text of a read or write of a binding: `container.target` for members. -/
def bindingText (t : Tree) (b : Nat) : Result String := do
  let name ← t.targetIdentifier b
  let v ← t.variableOf b
  match v.access, v.container with
  | .member, some container => pure (container ++ "." ++ name)
  | _, _ => pure name

end TreeLowering.Tree

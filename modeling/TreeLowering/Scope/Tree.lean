import TreeLowering.Scope.Variable

/-! # The scope tree and what can be seen in it

Scopes and bindings are numbered in the order they were made; a binding keeps its number when it
is removed from its scope. Scope 0 is the global scope, every other scope has an earlier parent
and every alias an earlier link, so walks outward and along links are bounded by the number they
start from. -/
namespace TreeLowering
set_option autoImplicit false

inductive ScopeKind where
  | global
  | function
  | block
deriving DecidableEq, Inhabited

namespace ScopeKind

def label : ScopeKind → String
  | global => "Global"
  | function => "Function"
  | block => "Block"

/-- The scope has a namespace of target names of its own. -/
def isFunction : ScopeKind → Bool
  | block => false
  | global | function => true

end ScopeKind

structure Scope where
  kind : ScopeKind
  parent : Option Nat
  /-- The visible bindings, in insertion order. -/
  order : List Nat
deriving DecidableEq, Inhabited

structure Tree where
  scopes : Array Scope
  bindings : Array Binding
deriving DecidableEq, Inhabited

namespace Tree

/-- A tree with an empty global scope. -/
def empty : Tree := ⟨#[⟨.global, none, []⟩], #[]⟩

def containsScope (t : Tree) (s : Nat) : Bool := s < t.scopes.size

def containsBinding (t : Tree) (b : Nat) : Bool := b < t.bindings.size

/-- Visible bindings of a scope, in insertion order. -/
def visible (t : Tree) (s : Nat) : List Nat :=
  match t.scopes[s]? with
  | some scope => scope.order
  | none => []

def parent? (t : Tree) (s : Nat) : Option Nat := t.scopes[s]?.bind Scope.parent

def isFunctionScope (t : Tree) (s : Nat) : Bool :=
  match t.scopes[s]? with
  | some scope => scope.kind.isFunction
  | none => false

def entryAt? (t : Tree) (b : Nat) : Option Entry := t.bindings[b]?.map Binding.entry

/-- The source identifier of a binding; an alias keeps its own. -/
def identifier? (t : Tree) (b : Nat) : Option String := (t.entryAt? b).bind Entry.identifier

/-- The binding that a scope itself holds under a name. -/
def named? (t : Tree) (s : Nat) (name : String) : Option Nat :=
  (t.visible s).find? fun b => t.identifier? b == some name

/-- A scope and the scopes around it, from the inside out, at most `fuel + 1` of them. -/
def chainFrom (t : Tree) : Nat → Nat → List Nat
  | 0, s => [s]
  | fuel + 1, s =>
    match t.parent? s with
    | some p => s :: t.chainFrom fuel p
    | none => [s]

/-- A scope and the scopes around it, from the inside out. -/
def chain (t : Tree) (s : Nat) : List Nat := t.chainFrom s s

/-- The first binding of a name found outward from a scope. -/
def nearest? (t : Tree) (s : Nat) (name : String) : Option Nat :=
  (t.chain s).findSome? fun s => t.named? s name

/-- The nearest function or global scope around a scope, itself included. -/
def functionScope (t : Tree) (s : Nat) : Nat := ((t.chain s).find? t.isFunctionScope).getD s

/-- The end of a chain of at most `fuel` links. -/
def resolveFrom (t : Tree) : Nat → Nat → Nat
  | 0, b => b
  | fuel + 1, b =>
    match (t.entryAt? b).bind Entry.link? with
    | some link => t.resolveFrom fuel link
    | none => b

/-- The binding that owns the storage behind a binding. -/
def resolve (t : Tree) (b : Nat) : Nat := t.resolveFrom b b

/-- The variable behind a binding. -/
def variableBehind? (t : Tree) (b : Nat) : Option Variable :=
  match t.entryAt? (t.resolve b) with
  | some (.var v) => some v
  | _ => none

/-- Visible bindings of a scope with local storage, in insertion order. -/
def locals (t : Tree) (s : Nat) : List Nat :=
  (t.visible s).filter fun b => (t.entryAt? b).map Entry.storage == some .local

/-- Scopes that are functions of their own, in order. -/
def functionScopes (t : Tree) : List Nat := (List.range t.scopes.size).filter t.isFunctionScope

/-- The block scopes whose nearest function scope is `f`, in order. -/
def ownedBlocks (t : Tree) (f : Nat) : List Nat :=
  (List.range t.scopes.size).filter fun s => !t.isFunctionScope s && t.functionScope s == f

/-- Locals of a function scope followed by those of the blocks it owns: all that its local
allocation line declares. -/
def hoisted (t : Tree) (f : Nat) : List Nat := t.locals f ++ (t.ownedBlocks f).flatMap t.locals

/-- The bindings that a function scope names, in the order they are named. -/
def allocationOrder (t : Tree) (f : Nat) : List Nat :=
  t.visible f ++ (t.ownedBlocks f).flatMap t.visible

/-- The target names taken in the namespace of a function scope, by visible bindings and removed
ones alike. -/
def usedTargets (t : Tree) (f : Nat) : List String :=
  t.bindings.toList.filterMap fun b =>
    if t.functionScope b.owner = f then b.entry.slotTarget? else none

end Tree
end TreeLowering

import TreeLowering.Program.Document
import TreeLowering.Scope.Arena

/-! # Placing declared scopes below the global scope

Declared scope `i` of a document becomes scope `i + 1`. What was placed before a failure stays.
Declarations are attached to a tree, and placed in an arena. -/
namespace TreeLowering
set_option autoImplicit false

def DeclaredKind.scopeKind : DeclaredKind → ScopeKind
  | function => .function
  | block => .block

namespace BindingDecl

/-- Whether a container is named exactly if access goes through one. -/
def agreement (name : Option String) (access : AccessClass) (container : Option String)
    (scope : Nat) : Result Unit :=
  match access, container with
  | .member, some _ | .direct, none => pure ()
  | .member, none => fail (.memberWithoutContainer name scope)
  | .direct, some _ => fail (.directWithContainer name scope)

/-- The target of a declared variable: a fixed name wins over a preferred one. -/
def target (fixed desired : Option String) : Target :=
  match fixed with
  | some name => .assigned name
  | none => .pending desired

/-- The entry that a declaration stands for in a scope, where `resolve` reads references. -/
def entryBy (resolve : Reference → Result Nat) (scope : Nat) : BindingDecl → Result Entry
  | linked identifier link => do
    let b ← resolve link
    pure (.linked identifier b)
  | var identifier storage access fixed desired container => do
    let v ← Variable.parse identifier storage access
    agreement identifier v.access container scope
    pure (.var { v with container := container, target := target fixed desired })

def entry (t : Tree) (scope : Nat) (d : BindingDecl) : Result Entry :=
  d.entryBy t.resolveReference scope

/-- Adds a declared binding to a scope. -/
def attach (scope : Nat) (d : BindingDecl) : Edit Unit := do
  let e ← Edit.inspect fun t => d.entry t scope
  let _ ← Tree.add scope e
  pure ()

/-- Adds a declared binding to a scope of an arena. -/
def place (scope : Nat) (d : BindingDecl) : Arena.Update Unit := do
  let e ← Edit.inspect fun a => d.entryBy a.resolveReference scope
  let _ ← Arena.add scope e
  pure ()

end BindingDecl

namespace ScopeDecl

/-- Adds a declared scope, which becomes the scope of that id, and its bindings. -/
def attach (id : Nat) (d : ScopeDecl) : Edit Unit := do
  if id ≤ d.parent then fail (.lateParent id d.parent)
  else
    let scope ← Tree.pushScope d.kind.scopeKind d.parent
    d.bindings.forM (BindingDecl.attach scope)

/-- Adds declared scopes in order, the first with the given id. -/
def attachFrom : Nat → List ScopeDecl → Edit Unit
  | _, [] => pure ()
  | id, d :: rest => do
    d.attach id
    attachFrom (id + 1) rest

/-- Adds the scopes of a document to a tree that has only its global scope. -/
def attachAll (ds : List ScopeDecl) : Edit Unit := do
  let t ← get
  if t.scopes.size = 1 then attachFrom 1 ds else fail .scopesAttachedTwice

def place (id : Nat) (d : ScopeDecl) : Arena.Update Unit := do
  if id ≤ d.parent then fail (.lateParent id d.parent)
  else
    let scope ← Arena.pushScope d.kind.scopeKind d.parent
    d.bindings.forM (BindingDecl.place scope)

def placeFrom : Nat → List ScopeDecl → Arena.Update Unit
  | _, [] => pure ()
  | id, d :: rest => do
    d.place id
    placeFrom (id + 1) rest

/-- Adds the scopes of a document to an arena that has only its global scope. -/
def placeAll (ds : List ScopeDecl) : Arena.Update Unit := do
  let a ← get
  if a.scopes.size = 1 then placeFrom 1 ds else fail .scopesAttachedTwice

end ScopeDecl
end TreeLowering

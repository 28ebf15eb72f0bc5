import TreeLowering.Scope.Naming
import TreeLowering.Scope.Registry

/-! # The scope tree with its indexes

A scope keeps, beside the order of its bindings, its own id, a map from names to visible bindings
and the set of target names taken in it. Edits update them where they change the tree; look-ups by
name, walks over all scopes and the choice of target names read them instead of searching the
bindings. -/
namespace TreeLowering
set_option autoImplicit false

/-- A map from names to bindings, each name at most once. -/
abbrev NameMap : Type := List (String × Nat)

namespace NameMap

def erase (m : NameMap) (name : String) : NameMap := m.filter fun entry => entry.1 != name

/-- Maps a name to a binding, in place of what it was mapped to. -/
def insert (m : NameMap) (name : String) (b : Nat) : NameMap := (name, b) :: m.erase name

end NameMap

structure IndexedScope where
  id : Nat
  kind : ScopeKind
  parent : Option Nat
  names : NameMap
  order : List Nat
  /-- A set: no name occurs twice, and their order says nothing. -/
  usedTargets : List String
deriving DecidableEq, Inhabited

namespace IndexedScope

def plain (r : IndexedScope) : Scope := ⟨r.kind, r.parent, r.order⟩

/-- Takes in a binding, under its name if it has one. -/
def hold (r : IndexedScope) (name : Option String) (b : Nat) : IndexedScope :=
  match name with
  | some name => { r with names := r.names.insert name b, order := r.order ++ [b] }
  | none => { r with order := r.order ++ [b] }

def drop (r : IndexedScope) (name : String) (b : Nat) : IndexedScope :=
  { r with names := r.names.erase name, order := r.order.filter (· != b) }

def take (r : IndexedScope) (target : String) : IndexedScope :=
  { r with usedTargets := r.usedTargets.insert target }

end IndexedScope

structure Arena where
  scopes : Array IndexedScope
  bindings : Array Binding
deriving DecidableEq, Inhabited

namespace Arena

/-- An edit of an arena; what it changed before a failure stays. -/
abbrev Update (α : Type) : Type := EStateM Failure Arena α

/-- An arena with an empty global scope. -/
def empty : Arena := ⟨#[⟨0, .global, none, [], [], []⟩], #[]⟩

/-- The scopes and bindings without the indexes. -/
def tree (a : Arena) : Tree := ⟨(a.scopes.toList.map IndexedScope.plain).toArray, a.bindings⟩

/-! ## Reading the indexes -/

/-- The binding that a scope itself maps a name to. -/
def named? (a : Arena) (s : Nat) (name : String) : Option Nat :=
  a.scopes[s]?.bind fun r => r.names.lookup name

/-- The first binding of a name found outward from a scope. -/
def nearest? (a : Arena) (s : Nat) (name : String) : Option Nat :=
  (a.tree.chain s).findSome? fun s => a.named? s name

/-- The target names taken in a scope. -/
def usedTargets (a : Arena) (f : Nat) : List String :=
  match a.scopes[f]? with
  | some r => r.usedTargets
  | none => []

/-- Ids of the scopes that are functions of their own, in order. -/
def functionScopes (a : Arena) : List Nat :=
  (a.scopes.toList.filter fun r => r.kind.isFunction).map IndexedScope.id

/-- Ids of the block scopes whose nearest function scope is `f`, in order. -/
def ownedBlocks (a : Arena) (f : Nat) : List Nat :=
  (a.scopes.toList.filter fun r =>
    !r.kind.isFunction && a.tree.functionScope r.id == f).map IndexedScope.id

def hoisted (a : Arena) (f : Nat) : List Nat :=
  a.tree.locals f ++ (a.ownedBlocks f).flatMap a.tree.locals

/-- The bindings that a function scope names, in the order they are named. -/
def allocationOrder (a : Arena) (f : Nat) : List Nat :=
  a.tree.visible f ++ (a.ownedBlocks f).flatMap a.tree.visible

def lookupLocal (a : Arena) (s : Nat) (name : String) : Result (Option Nat) := do
  a.tree.checkScope s
  pure (a.named? s name)

def lookupChain (a : Arena) (s : Nat) (name : String) : Result Nat := do
  a.tree.checkScope s
  match a.nearest? s name with
  | some b => pure b
  | none => fail (.unresolved name .chain)

def hoistedBindings (a : Arena) (f : Nat) : Result (List Nat) := do
  a.tree.checkScope f
  pure (a.hoisted f)

def reference? (a : Arena) : Reference → Option Nat
  | .named s name => a.named? s name
  | .slot s i => (a.tree.visible s)[i]?

def resolveReference (a : Arena) (ref : Reference) : Result Nat :=
  if a.tree.containsScope ref.scope then
    match a.reference? ref with
    | some b => pure b
    | none => fail (.unresolved ref.render .reference)
  else fail (.missingScope ref)

/-! ## Edits -/

/-- Adds a scope below a parent; its id is the number of scopes before. -/
def pushScope (kind : ScopeKind) (parent : Nat) : Update Nat := do
  let a ← get
  if kind = .global then fail .secondGlobalScope
  else if parent < a.scopes.size then
    set { a with scopes := a.scopes.push ⟨a.scopes.size, kind, some parent, [], [], []⟩ }
    pure a.scopes.size
  else fail (.missingParent parent)

/-- An alias of a binding that does not exist. -/
def dangling? (a : Arena) : Entry → Option Failure
  | .linked name link =>
    if link < a.bindings.size then none else some (.fault (.danglingLink name) none)
  | .var _ => none

/-- An entry whose scope does not exist or has its name already. -/
def taken? (a : Arena) (s : Nat) (e : Entry) : Option Failure :=
  match a.scopes[s]? with
  | none => some .outOfRange
  | some r => e.identifier.bind fun name =>
    if (r.names.lookup name).isSome then some (.fault (.redeclared name) none) else none

/-- Takes a target name in a scope. -/
def reserve (a : Arena) (f : Nat) (target : String) : Arena :=
  { a with scopes := a.scopes.modify f (·.take target) }

/-- Takes the target that a slot brings along, in the function of its scope. -/
def reserveFixed (a : Arena) (s : Nat) (e : Entry) : Arena :=
  match e.slotTarget? with
  | some target => a.reserve (a.tree.functionScope s) target
  | none => a

/-- Puts a binding at the end of a scope and of the arena. -/
def append (a : Arena) (s : Nat) (e : Entry) : Arena where
  scopes := a.scopes.modify s (·.hold e.identifier a.bindings.size)
  bindings := a.bindings.push ⟨s, e⟩

/-- Adds a binding to a scope; its id is the number of bindings before. Outer scopes may be
shadowed, a name of the same scope may not. -/
def add (s : Nat) (e : Entry) : Update Nat := do
  let a ← get
  match (a.dangling? e).or (a.taken? s e) with
  | some failure => throw failure
  | none =>
    set ((a.reserveFixed s e).append s e)
    pure a.bindings.size

/-- Takes a named binding out of a scope; the binding itself and its target stay. -/
def remove (s : Nat) (name : String) : Update (Option Nat) := do
  let a ← get
  match a.scopes[s]? with
  | none => throw .outOfRange
  | some r =>
    match r.names.lookup name with
    | some b =>
      set { a with scopes := a.scopes.modify s (·.drop name b) }
      pure (some b)
    | none => pure none

/-! ## Target names -/

/-- The name that a binding takes for a candidate, and the arena in which it is taken. -/
def chooseTarget (a : Arena) (b : Binding) (storage : StorageClass) (candidate : String) :
    String × Arena :=
  if storage.isFunctionSlot then
    let f := a.tree.functionScope b.owner
    let target := uniqueName candidate (a.usedTargets f)
    (target, a.reserve f target)
  else (candidate, a)

def setTarget (a : Arena) (b : Nat) (target : String) : Arena :=
  { a with bindings := a.bindings.modify b fun x => { x with entry := x.entry.assign target } }

/-- Fixes the target of a binding, starting from a candidate, and returns it. -/
def assignTarget (b : Nat) (candidate : String) : Update String := do
  let a ← get
  match a.bindings[b]? with
  | none => throw .outOfRange
  | some binding =>
    match binding.entry with
    | .linked name _ => fail (.aliasAssigned name)
    | .var v =>
      match v.target with
      | .assigned name => fail (.alreadyAssigned v.identifier name)
      | .pending _ =>
        let choice := a.chooseTarget binding v.storage candidate
        set (choice.2.setTarget b choice.1)
        pure choice.1

/-- Names a binding if it is a pending variable. -/
def allocateOne (b : Nat) : Update Unit := do
  let a ← get
  match a.tree.entryAt? b with
  | some (.var v) =>
    if v.target.isPending then
      let candidate ← Edit.inspect fun _ => Tree.candidateOf v
      let _ ← assignTarget b candidate
      pure ()
    else pure ()
  | _ => pure ()

/-- Names the bindings of one function scope. -/
def allocateFunction (f : Nat) : Update Unit := do
  let a ← get
  (a.allocationOrder f).forM allocateOne

/-- Names every pending variable; names given before a failure stay. -/
def allocate : Update Unit := do
  let a ← get
  a.functionScopes.forM allocateFunction

def addGlobal (container name : String) : Update Unit := do
  let _ ← add 0 (.var (Variable.ofMember name container))
  pure ()

/-- An arena with only the global scope: every registry name, then every extra name, as a member
of `container`. -/
def ofGlobals (r : Registry) (extra : List String) (container : String) : Result Arena :=
  Edit.finish ((r.names ++ extra).forM (addGlobal container)) empty

end Arena
end TreeLowering

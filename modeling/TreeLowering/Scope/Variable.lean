import TreeLowering.Fault

/-! # Bindings: variables and aliases -/
namespace TreeLowering
set_option autoImplicit false

/-- The name of a variable in emitted code: fixed once, until then pending with an optional
preference. -/
inductive Target where
  | pending (desired : Option String)
  | assigned (name : String)
deriving DecidableEq, Inhabited

namespace Target

def name? : Target → Option String
  | assigned name => some name
  | pending _ => none

def desired? : Target → Option String
  | assigned _ => none
  | pending desired => desired

def isPending : Target → Bool
  | pending _ => true
  | assigned _ => false

end Target

structure Variable where
  identifier : Option String
  storage : StorageClass
  access : AccessClass
  target : Target
  container : Option String
deriving DecidableEq, Inhabited

namespace Variable

/-- A variable without container whose target is pending. -/
def fresh (identifier : Option String) (storage : StorageClass) (access : AccessClass) : Variable :=
  ⟨identifier, storage, access, .pending none, none⟩

/-- Reads the classes of a fresh variable from their spellings, the storage class first. -/
def parse (identifier : Option String) (storage access : String) : Result Variable :=
  match StorageClass.parse? storage with
  | none => fail (.invalidStorage storage)
  | some s =>
    match AccessClass.parse? access with
    | none => fail (.invalidAccess access)
    | some a => pure (fresh identifier s a)

def ofLocal (identifier : String) : Variable := fresh (some identifier) .local .direct

def ofArgument (identifier : String) : Variable := fresh (some identifier) .argument .direct

/-- A member of `container` under its own name. -/
def ofMember (identifier container : String) : Variable :=
  ⟨some identifier, .namespaced, .member, .assigned identifier, some container⟩

def withContainer (v : Variable) (container : String) : Variable :=
  { v with container := some container }

def withTarget (v : Variable) (name : String) : Variable := { v with target := .assigned name }

/-- States a preference; it has no effect once the target is fixed. -/
def withDesired (v : Variable) (name : String) : Variable :=
  if v.target.isPending then { v with target := .pending (some name) } else v

end Variable

/-- What a scope holds under a name: a variable, or a second name for another binding. -/
inductive Entry where
  | var (v : Variable)
  | linked (identifier : String) (link : Nat)
deriving DecidableEq, Inhabited

namespace Entry

def identifier : Entry → Option String
  | var v => v.identifier
  | linked name _ => some name

/-- The entry's own storage class; an alias has no storage of its own. -/
def storage : Entry → StorageClass
  | var v => v.storage
  | linked .. => .unmaterialized

def link? : Entry → Option Nat
  | var _ => none
  | linked _ link => some link

/-- The target an entry occupies in the namespace of its function. -/
def slotTarget? : Entry → Option String
  | var v => if v.storage.isFunctionSlot then v.target.name? else none
  | linked .. => none

/-- Fixes the target of a variable. -/
def assign (name : String) : Entry → Entry
  | var v => var (v.withTarget name)
  | linked n l => linked n l

end Entry

/-- An entry with the scope it was added to. -/
structure Binding where
  owner : Nat
  entry : Entry
deriving DecidableEq, Inhabited

end TreeLowering

import TreeLowering.Scope.Lookup

/-! # Growing the scope tree

Edits run in a state that survives their failure; each single edit here fails without a
change. -/
namespace TreeLowering
set_option autoImplicit false

abbrev Edit (α : Type) : Type := EStateM Failure Tree α

namespace Edit

variable {σ : Type}

/-- Runs a check that only reads the state. -/
def inspect {α : Type} (f : σ → Result α) : EStateM Failure σ α := fun t =>
  match f t with
  | .ok a => .ok a t
  | .error e => .error e t

/-- The state after a run that succeeds. -/
def finish (m : EStateM Failure σ Unit) (t : σ) : Result σ :=
  match m t with
  | .ok _ u => pure u
  | .error e _ => throw e

end Edit

namespace Tree

/-- Adds a scope below a parent; its id is the number of scopes before. -/
def pushScope (kind : ScopeKind) (parent : Nat) : Edit Nat := do
  let t ← get
  if kind = .global then fail .secondGlobalScope
  else if t.containsScope parent then
    set { t with scopes := t.scopes.push ⟨kind, some parent, []⟩ }
    pure t.scopes.size
  else fail (.missingParent parent)

/-- The tree with a binding added at the end of a scope. -/
def insert (t : Tree) (s : Nat) (e : Entry) : Tree where
  scopes := t.scopes.modify s fun scope => { scope with order := scope.order ++ [t.bindings.size] }
  bindings := t.bindings.push ⟨s, e⟩

@[simp] theorem size_scopes_insert (t : Tree) (s : Nat) (e : Entry) :
    (t.insert s e).scopes.size = t.scopes.size := by
  simp [insert]

@[simp] theorem size_bindings_insert (t : Tree) (s : Nat) (e : Entry) :
    (t.insert s e).bindings.size = t.bindings.size + 1 := by
  simp [insert]

theorem visible_insert_self {t : Tree} {s : Nat} (e : Entry) (h : t.containsScope s = true) :
    (t.insert s e).visible s = t.visible s ++ [t.bindings.size] := by
  have h : s < t.scopes.size := by simpa [containsScope] using h
  simp only [insert, visible, Array.getElem?_modify, if_true, Array.getElem?_eq_getElem h,
    Option.map_some]

theorem visible_insert_of_ne (t : Tree) {s r : Nat} (e : Entry) (h : r ≠ s) :
    (t.insert s e).visible r = t.visible r := by
  simp [insert, visible, Array.getElem?_modify, h.symm]

theorem entryAt?_insert_self (t : Tree) (s : Nat) (e : Entry) :
    (t.insert s e).entryAt? t.bindings.size = some e := by
  simp [insert, entryAt?]

theorem entryAt?_insert_of_lt {t : Tree} {b : Nat} (s : Nat) (e : Entry) (h : b < t.bindings.size) :
    (t.insert s e).entryAt? b = t.entryAt? b := by
  simp [insert, entryAt?, Array.getElem?_push, Nat.ne_of_lt h]

/-- What keeps an entry from being added to a scope. -/
def obstacle? (t : Tree) (s : Nat) (e : Entry) : Option Failure :=
  match e with
  | .linked name link =>
    if !t.containsBinding link then some (.fault (.danglingLink name) none)
    else if !t.containsScope s then some .outOfRange
    else if (t.named? s name).isSome then some (.fault (.redeclared name) none)
    else none
  | .var v =>
    if !t.containsScope s then some .outOfRange
    else
      match v.identifier with
      | some name =>
        if (t.named? s name).isSome then some (.fault (.redeclared name) none) else none
      | none => none

/-- Adds a binding to a scope; its id is the number of bindings before. Outer scopes may be
shadowed, a name of the same scope may not. -/
def add (s : Nat) (e : Entry) : Edit Nat := do
  let t ← get
  match t.obstacle? s e with
  | some failure => throw failure
  | none =>
    set (t.insert s e)
    pure t.bindings.size

/-- The tree with a binding no longer visible in a scope. -/
def retract (t : Tree) (s b : Nat) : Tree :=
  { t with
    scopes := t.scopes.modify s fun scope => { scope with order := scope.order.filter (· != b) } }

theorem visible_retract_self (t : Tree) (s b : Nat) :
    (t.retract s b).visible s = (t.visible s).filter (· != b) := by
  simp only [retract, visible, Array.getElem?_modify, if_true]
  cases t.scopes[s]? <;> rfl

theorem visible_retract_of_ne (t : Tree) {s r : Nat} (b : Nat) (h : r ≠ s) :
    (t.retract s b).visible r = t.visible r := by
  simp [retract, visible, Array.getElem?_modify, h.symm]

/-- Takes a named binding out of a scope. The binding itself stays, so references to it and
links keep working. -/
def remove (s : Nat) (name : String) : Edit (Option Nat) := do
  let t ← get
  if t.containsScope s then
    match t.named? s name with
    | some b =>
      set (t.retract s b)
      pure (some b)
    | none => pure none
  else throw .outOfRange

end Tree
end TreeLowering

import TreeLowering.Scope.Lookup
import TreeLowering.Text.Grid

/-! # The scope tree as a table -/
namespace TreeLowering.Tree
set_option autoImplicit false

def tableHeader : List String :=
  ["Scope", "Kind", "Parent", "Identifier", "Storage", "Access", "Target"]

/-- The target of a binding as the table shows it; an alias points at what it stands for. -/
def shownTarget (t : Tree) (b : Nat) : String :=
  let name := ((t.variableBehind? b).bind fun v => v.target.name?).getD "?"
  match t.entryAt? b with
  | some (.linked ..) => "-> " ++ name
  | _ => name

/-- What the table tells of a binding. -/
def bindingCells (t : Tree) (b : Nat) : List String :=
  [Fault.nameOrAnonymous (t.identifier? b),
    ((t.entryAt? b).map fun e => e.storage.label).getD "",
    ((t.variableBehind? b).map fun v => v.access.label).getD "", t.shownTarget b]

/-- The rows of a scope: one for each visible binding, or a single one. -/
def scopeRows (t : Tree) (s : Nat) (scope : Scope) : List (List String) :=
  let own := [toString s, scope.kind.label, (scope.parent.map toString).getD "-"]
  match scope.order with
  | [] => [own ++ ["", "", "", ""]]
  | order => order.map fun b => own ++ t.bindingCells b

/-- The global scope is summed up in one row. -/
def globalRow (t : Tree) : List String :=
  ["0", ScopeKind.label .global, "-", s!"({(t.visible 0).length} names)",
    StorageClass.label .namespaced, AccessClass.label .member, "-"]

def table (t : Tree) : Text.Grid where
  header := tableHeader
  rows := t.globalRow ::
    (t.scopes.toList.zipIdx.drop 1).flatMap fun (scope, s) => t.scopeRows s scope

end TreeLowering.Tree

import TreeLowering.Scope.Edit

/-! # Choosing target names

Every local and argument gets a name that no other slot of its function has and that is no
reserved word. Scopes and bindings are visited in a fixed order, so the same tree always gets
the same names. -/
namespace TreeLowering
set_option autoImplicit false

/-- Words of the target language, and names that the module envelope relies on. -/
def reservedWords : List String :=
  ["break", "case", "catch", "class", "const", "continue", "debugger", "default", "delete", "do",
    "else", "enum", "export", "extends", "false", "finally", "for", "function", "if", "implements",
    "import", "in", "instanceof", "interface", "let", "new", "null", "package", "private",
    "protected", "public", "return", "static", "super", "switch", "this", "throw", "true", "try",
    "typeof", "var", "void", "while", "with", "yield", "await", "arguments", "eval", "undefined",
    "NaN", "Infinity", "require", "define"]

def isReserved (name : String) : Bool := reservedWords.contains name

/-- A candidate with a numbered suffix. -/
def suffixed (candidate : String) (n : Nat) : String := s!"{candidate}${n}"

/-- The first of `candidate$1`, `candidate$2`, … that is not used; among one more names than
there are used ones there is always a free one. -/
def firstFreeSuffix (candidate : String) (used : List String) : String :=
  let attempts := (List.range (used.length + 1)).map fun n => suffixed candidate (n + 1)
  (attempts.find? fun name => !used.contains name).getD candidate

/-- The candidate if it is free and not reserved, else its first free suffixed form. -/
def uniqueName (candidate : String) (used : List String) : String :=
  if !used.contains candidate && !isReserved candidate then candidate
  else firstFreeSuffix candidate used

namespace Tree

/-- The name that a binding with this storage class takes for a candidate. -/
def chooseTarget (t : Tree) (b : Binding) (storage : StorageClass) (candidate : String) : String :=
  if storage.isFunctionSlot then uniqueName candidate (t.usedTargets (t.functionScope b.owner))
  else candidate

/-- The tree with the target of a binding fixed. -/
def setTarget (t : Tree) (b : Nat) (name : String) : Tree :=
  { t with bindings := t.bindings.modify b fun x => { x with entry := x.entry.assign name } }

/-- Fixes the target of a binding, starting from a candidate, and returns it. -/
def assignTarget (b : Nat) (candidate : String) : Edit String := do
  let t ← get
  match t.bindings[b]? with
  | none => throw .outOfRange
  | some binding =>
    match binding.entry with
    | .linked name _ => fail (.aliasAssigned name)
    | .var v =>
      match v.target with
      | .assigned name => fail (.alreadyAssigned v.identifier name)
      | .pending _ =>
        let name := t.chooseTarget binding v.storage candidate
        set (t.setTarget b name)
        pure name

/-- What a slot is called when nothing else names it. -/
def anonymousCandidate : String := "$tmp"

/-- The candidate of a pending variable: its preferred name or its identifier for a slot of a
function, its identifier otherwise. -/
def candidateOf (v : Variable) : Result String :=
  if v.storage.isFunctionSlot then
    pure ((v.target.desired?.or v.identifier).getD anonymousCandidate)
  else
    match v.identifier with
    | some name => pure name
    | none => fail (.anonymousWithoutTarget v.storage)

/-- Names a binding if it is a pending variable. -/
def allocateOne (b : Nat) : Edit Unit := do
  let t ← get
  match t.entryAt? b with
  | some (.var v) =>
    if v.target.isPending then
      let candidate ← Edit.inspect fun _ => candidateOf v
      let _ ← assignTarget b candidate
      pure ()
    else pure ()
  | _ => pure ()

/-- Names the bindings of one function scope. -/
def allocateFunction (f : Nat) : Edit Unit := do
  let t ← get
  (t.allocationOrder f).forM allocateOne

/-- Names every pending variable of the tree; names given before a failure stay. -/
def allocate : Edit Unit := do
  let t ← get
  t.functionScopes.forM allocateFunction

end Tree
end TreeLowering

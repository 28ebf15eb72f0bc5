import TreeLowering.Diagnostic
import TreeLowering.Json.LoadError
import TreeLowering.Scope.Class
import TreeLowering.Scope.Reference

/-! # Faults: the causes of failure, and how each is worded -/
namespace TreeLowering
set_option autoImplicit false

/-- Which look-up did not find a name. -/
inductive Seeker where
  /-- A look-up outward through enclosing scopes. -/
  | chain
  /-- A reference of a document. -/
  | reference
  /-- The caller's `self` or `other` of a call. -/
  | receiver
  /-- The `self` that a `with` statement rebinds. -/
  | innerSelf
deriving DecidableEq

/-- Everything that can go wrong, as a cause. -/
inductive Fault where
  | redeclared (name : String)
  | unresolved (name : String) (seeker : Seeker)
  | secondGlobalScope
  | missingParent (parent : Nat)
  | danglingLink (name : String)
  | missingScope (ref : Reference)
  | readBeforeAssigned (name : Option String)
  | anonymousWithoutTarget (storage : StorageClass)
  | aliasAssigned (name : String)
  | alreadyAssigned (name : Option String) (target : String)
  | invalidStorage (spelling : String)
  | invalidAccess (spelling : String)
  | indentUnderflow
  | scopesAttachedTwice
  | lateParent (scope parent : Nat)
  | memberWithoutContainer (name : Option String) (scope : Nat)
  | directWithContainer (name : Option String) (scope : Nat)
  | danglingScope (scope : Nat)
  | danglingReference (ref : Reference)
  | document (file : String) (e : LoadError)
  | options (e : LoadError)
  | registry (e : LoadError)
  | unreadableOptions (path reason : String)
  | unreadableRegistry (path reason : String)
  | unreadableScript (quotedPath reason : String)
  | badPattern (pattern reason : String)
  | unmatchedPattern (pattern : String)
  | severalInputs
  | directoryNotCreated (path reason : String)
  | fileNotWritten (path reason : String)
deriving DecidableEq

namespace Fault

def nameOrAnonymous (name : Option String) : String := name.getD "<anonymous>"

def kind : Fault → Kind
  | redeclared _ => .duplicateBinding
  | unresolved .. => .unresolvedIdentifier
  | readBeforeAssigned _ | anonymousWithoutTarget _ => .unassignedIdentifier
  | aliasAssigned _ | alreadyAssigned .. => .identifierAlreadyAssigned
  | invalidStorage _ | invalidAccess _ => .invalidStorageClass
  | indentUnderflow => .indentUnderflow
  | document _ e => if e.mentionsUnknownVariant then .unknownNodeKind else .malformedInput
  | options _ | registry _ | badPattern .. | severalInputs => .config
  | unreadableOptions .. | unreadableRegistry .. | unreadableScript .. | unmatchedPattern _
  | directoryNotCreated .. | fileNotWritten .. => .io
  | secondGlobalScope | missingParent _ | danglingLink _ | missingScope _ | scopesAttachedTwice
  | lateParent .. | memberWithoutContainer .. | directWithContainer .. | danglingScope _
  | danglingReference _ => .malformedInput

def level : Fault → Level
  | redeclared _ | unresolved .. | options _ | registry _ | unreadableOptions ..
  | unreadableRegistry .. | unreadableScript .. | badPattern .. | unmatchedPattern _ | severalInputs
  | directoryNotCreated .. | fileNotWritten .. => .error
  | _ => .critical

def message : Fault → String
  | redeclared name => (Diagnostic.redeclared name "").message
  | unresolved name _ => (Diagnostic.unresolved name "").message
  | secondGlobalScope => "Only the root scope may be global"
  | missingParent parent => s!"Parent scope {parent} does not exist"
  | danglingLink name => "Linked variable \"" ++ name ++ "\" points at a missing binding"
  | missingScope ref => "Binding reference " ++ ref.render ++ " names a missing scope"
  | readBeforeAssigned name =>
    "Binding \"" ++ nameOrAnonymous name ++ "\" was read before its target identifier was assigned"
  | anonymousWithoutTarget storage =>
    "Anonymous " ++ storage.label ++ " binding has no target identifier"
  | aliasAssigned name =>
    "Linked variable \"" ++ name ++ "\" shares its target identifier and cannot be assigned one"
  | alreadyAssigned name target =>
    "Binding \"" ++ nameOrAnonymous name ++ "\" already has target identifier \"" ++ target ++ "\""
  | invalidStorage spelling => "Invalid variable storage class \"" ++ spelling ++ "\""
  | invalidAccess spelling => "Invalid variable access class \"" ++ spelling ++ "\""
  | indentUnderflow => (Diagnostic.indentUnderflow "").message
  | scopesAttachedTwice => "Document scopes must be attached directly below a fresh global scope"
  | lateParent scope parent =>
    s!"Scope {scope} names parent {parent}, which is not declared before it"
  | memberWithoutContainer name scope =>
    "Member binding \"" ++ nameOrAnonymous name ++ s!"\" in scope {scope} has no container"
  | directWithContainer name scope =>
    "Direct binding \"" ++ nameOrAnonymous name ++ s!"\" in scope {scope} must not name a container"
  | danglingScope scope => s!"Node references scope {scope}, which does not exist"
  | danglingReference ref => "Node references binding " ++ ref.render ++ ", which does not exist"
  | document _ e => e.message
  | options e => "parse config: " ++ e.message
  | registry e => "parse global registry: " ++ e.message
  | unreadableOptions path reason => "read config " ++ path ++ ": " ++ reason
  | unreadableRegistry path reason => "read global registry " ++ path ++ ": " ++ reason
  | unreadableScript quotedPath reason => "Cannot read script at " ++ quotedPath ++ ": " ++ reason
  | badPattern pattern reason => "bad pattern " ++ pattern ++ ": " ++ reason
  | unmatchedPattern pattern => "pattern " ++ pattern ++ " matched no files"
  | severalInputs => "--output takes a single input; use --out-dir for several"
  | directoryNotCreated path reason => "create " ++ path ++ ": " ++ reason
  | fileNotWritten path reason => "write " ++ path ++ ": " ++ reason

/-- The part of the compiler that finds the fault. -/
def issuer : Fault → String
  | redeclared _ | danglingLink _ => "angl.scope.table.add"
  | unresolved _ .chain => "angl.scope.table.lookup_chain"
  | unresolved _ .reference => "angl.scope.table.resolve_ref"
  | unresolved _ .receiver => "angl.lower.lowering_context.resolve_in_chain"
  | unresolved _ .innerSelf => "angl.lower.lower_stmt.inner_self_text"
  | secondGlobalScope | missingParent _ => "angl.scope.table.push_scope"
  | missingScope _ => "angl.scope.table.resolve_ref"
  | readBeforeAssigned _ => "angl.scope.table.target_identifier"
  | anonymousWithoutTarget _ => "angl.scope.naming.allocate_target_identifiers"
  | aliasAssigned _ | alreadyAssigned .. => "angl.scope.naming.assign_target_identifier"
  | invalidStorage _ => "angl.scope.variable.StorageClass::parse"
  | invalidAccess _ => "angl.scope.variable.AccessClass::parse"
  | indentUnderflow => "angl.lower.text_sink.outdent"
  | scopesAttachedTwice | lateParent .. | memberWithoutContainer .. | directWithContainer .. =>
    "angl.ast.input.attach_document_scopes"
  | danglingScope _ => "angl.ast.input.check_scope"
  | danglingReference _ => "angl.ast.input.check_ref"
  | document .. => "angl.ast.input.from_serde"
  | options _ => "angl.config.from_json_str"
  | registry _ => "angl.scope.global.from_json_str"
  | unreadableOptions .. => "angl.config.load_from_file"
  | unreadableRegistry .. => "angl.scope.global.load_from_file"
  | unreadableScript .. => "angl.script"
  | badPattern .. | unmatchedPattern _ => "anglc.expand_inputs"
  | severalInputs => "anglc.run_build"
  | directoryNotCreated .. | fileNotWritten .. => "anglc.write_output"

/-- The fault comes from loading a JSON text. -/
def isLoadFailure : Fault → Bool
  | document .. | options _ | registry _ => true
  | _ => false

def diagnostic (f : Fault) (location : Option Location) : Diagnostic where
  level := f.level
  kind := f.kind
  message := f.message
  issuer := f.issuer
  place :=
    match f with
    | document file _ => some (.file file)
    | _ => location.map .position

end Fault

/-- Why a computation stopped: a fault that is reported, or an id that names no scope or binding,
which callers promise not to pass. -/
inductive Failure where
  | fault (cause : Fault) (location : Option Location)
  | outOfRange
deriving DecidableEq

instance : Inhabited Failure := ⟨.outOfRange⟩

abbrev Result (α : Type) : Type := Except Failure α

/-- Fails with a fault that has no position. -/
def fail {ε : Type → Type} [MonadExceptOf Failure ε] {α : Type} (cause : Fault) : ε α :=
  throw (.fault cause none)

end TreeLowering

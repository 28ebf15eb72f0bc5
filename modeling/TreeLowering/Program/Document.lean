import TreeLowering.Program.Node
import TreeLowering.Json.Tagged
import TreeLowering.Fault

/-! # Documents: the declared scopes and the program that refers to them -/
namespace TreeLowering
set_option autoImplicit false

/-- Kinds that a document may declare; the global scope is not declared. -/
inductive DeclaredKind where
  | function
  | block
deriving DecidableEq, Inhabited

namespace DeclaredKind

def label : DeclaredKind → String
  | function => "function"
  | block => "block"

def decoder : Decoder DeclaredKind :=
  .choice [(function.label, function), (block.label, block)]

end DeclaredKind

/-- A declared binding: an alias of another one, or a variable with spellings as written. -/
inductive BindingDecl where
  | linked (identifier : String) (link : Reference)
  | var (identifier : Option String) (storage access : String)
    (target desired container : Option String)
deriving DecidableEq

structure ScopeDecl where
  parent : Nat
  kind : DeclaredKind
  bindings : List BindingDecl
deriving DecidableEq

structure Document where
  scopes : List ScopeDecl
  program : Program

/-! ## Declared scopes in JSON -/

namespace BindingDecl

def aliasRecord :=
  ((Record.required "identifier" .text).and (Record.required "link" Reference.decoder)).map
    fun (identifier, link) => BindingDecl.linked identifier link

def varRecord :=
  ((Record.optional "identifier" .text).and
    ((Record.withDefault "storage" .text "LOCAL").and
      ((Record.withDefault "access" .text "BARE").and
        ((Record.optional "target" .text).and
          ((Record.optional "desired" .text).and (Record.optional "container" .text)))))).map
    fun (identifier, storage, access, target, desired, container) =>
      BindingDecl.var identifier storage access target desired container

/-- An alias if the value loads as one, else a variable. -/
def decoder : Decoder BindingDecl := .firstOf "BindingDecl" [aliasRecord.object, varRecord.object]

def toJson : BindingDecl → Json
  | linked identifier link =>
    .object [.entry "identifier" (.string identifier), .entry "link" link.toJson]
  | var identifier storage access target desired container =>
    .object [.entry "identifier" (.ofString? identifier), .entry "storage" (.string storage),
      .entry "access" (.string access), .entry "target" (.ofString? target),
      .entry "desired" (.ofString? desired), .entry "container" (.ofString? container)]

end BindingDecl

namespace ScopeDecl

def record :=
  ((Record.required "parent" .natural).and
    ((Record.withDefault "kind" DeclaredKind.decoder .function).and
      (Record.withDefault "bindings" BindingDecl.decoder.list []))).map
    fun (parent, kind, bindings) => ScopeDecl.mk parent kind bindings

def decoder : Decoder ScopeDecl := record.decoder

def toJson (d : ScopeDecl) : Json :=
  .object [.entry "parent" (.ofNat d.parent), .entry "kind" (.string d.kind.label),
    .entry "bindings" (.array (d.bindings.map BindingDecl.toJson))]

end ScopeDecl
end TreeLowering

import TreeLowering.Location

/-! # Diagnostics: what is told about a failure -/
namespace TreeLowering
set_option autoImplicit false

inductive Level where
  | info
  | warning
  | error
  | critical
deriving DecidableEq, Inhabited

def Level.label : Level → String
  | info => "INFO"
  | warning => "WARNING"
  | error => "ERROR"
  | critical => "CRITICAL"

/-- The closed classification of failures. -/
inductive Kind where
  | duplicateBinding
  | unresolvedIdentifier
  | unknownNodeKind
  | indentUnderflow
  | invalidStorageClass
  | unassignedIdentifier
  | identifierAlreadyAssigned
  | malformedInput
  | config
  | io
deriving DecidableEq, Inhabited

namespace Kind

def label : Kind → String
  | duplicateBinding => "duplicate-binding"
  | unresolvedIdentifier => "unresolved-identifier"
  | unknownNodeKind => "unknown-node-kind"
  | indentUnderflow => "indent-underflow"
  | invalidStorageClass => "invalid-storage-class"
  | unassignedIdentifier => "unassigned-identifier"
  | identifierAlreadyAssigned => "identifier-already-assigned"
  | malformedInput => "malformed-input"
  | config => "config"
  | io => "io"

/-- Internal failures blame the producer of the tree, not the program in it. -/
def isInternal : Kind → Bool
  | duplicateBinding | unresolvedIdentifier | config | io => false
  | _ => true

end Kind

/-- Where a failure lies: at a position, or somewhere in a file. -/
inductive Place where
  | position (l : Location)
  | file (name : String)
deriving DecidableEq

def Place.render : Place → String
  | position l => l.render
  | file name => name

structure Diagnostic where
  level : Level
  kind : Kind
  message : String
  issuer : String
  place : Option Place
deriving DecidableEq

namespace Diagnostic

def placeOr (d : Diagnostic) (unknown : String) : String :=
  match d.place with
  | some p => p.render
  | none => unknown

/-- The line shown to users. -/
def report (d : Diagnostic) : String :=
  Text.join " | " ["ANGL", d.level.label, d.kind.label, d.placeOr "unknown location", d.message]

/-- The line that also tells who found the failure; no failure carries a span. -/
def debugLine (d : Diagnostic) : String :=
  Text.join " | " ["ANGL", d.level.label, d.kind.label, d.placeOr "unknown", d.issuer, "span:none",
    d.message]

/-- Fills in a position, keeping one that is already known. -/
def locate (d : Diagnostic) (l : Option Location) : Diagnostic :=
  match d.place with
  | some _ => d
  | none => { d with place := l.map .position }

/-- The message with the position after it, as scope failures are displayed. -/
def messageAt (d : Diagnostic) : String :=
  match d.place with
  | some p => d.message ++ " at " ++ p.render
  | none => d.message

/-- The message with the position in brackets, as input failures are displayed. -/
def messageIn (d : Diagnostic) : String :=
  match d.place with
  | some p => d.message ++ " (at " ++ p.render ++ ")"
  | none => d.message

def redeclared (name issuer : String) : Diagnostic where
  level := .error
  kind := .duplicateBinding
  message := "Identifier \"" ++ name ++ "\" is already declared in this scope"
  issuer := issuer
  place := none

def unresolved (name issuer : String) : Diagnostic where
  level := .error
  kind := .unresolvedIdentifier
  message := "Identifier \"" ++ name ++ "\" is not defined in any enclosing scope"
  issuer := issuer
  place := none

def indentUnderflow (issuer : String) : Diagnostic where
  level := .critical
  kind := .indentUnderflow
  message := "Indentation level dropped below zero"
  issuer := issuer
  place := none

/-- A failure of the input document. -/
def input (kind : Kind) (message issuer : String) (place : Option Place) : Diagnostic :=
  ⟨.critical, kind, message, issuer, place⟩

/-- A failure of the configuration or of a file. -/
def config (kind : Kind) (message issuer : String) : Diagnostic := ⟨.error, kind, message, issuer, none⟩

end Diagnostic
end TreeLowering

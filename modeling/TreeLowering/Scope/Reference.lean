import TreeLowering.Json.Record
import TreeLowering.Json.Writer

/-! # References to bindings, as documents write them -/
namespace TreeLowering
set_option autoImplicit false

/-- A binding of a scope, by name or by its position among the scope's bindings. -/
inductive Reference where
  | named (scope : Nat) (name : String)
  | slot (scope index : Nat)
deriving DecidableEq

namespace Reference

def scope : Reference → Nat
  | named s _ | slot s _ => s

def render : Reference → String
  | named s name => s!"{name}@{s}"
  | slot s i => s!"#{i}@{s}"

def namedRecord :=
  ((Record.required "scope" .natural).and (Record.required "name" .text)).map fun (s, n) => named s n

def slotRecord :=
  ((Record.required "scope" .natural).and (Record.required "index" .natural)).map
    fun (s, i) => slot s i

def decoder : Decoder Reference :=
  Decoder.firstOf "BindingRef" [namedRecord.object, slotRecord.object]

def toJson : Reference → Json
  | named s name => .object [.entry "scope" (.ofNat s), .entry "name" (.string name)]
  | slot s i => .object [.entry "scope" (.ofNat s), .entry "index" (.ofNat i)]

end Reference
end TreeLowering

import TreeLowering.Json.LoadError
import TreeLowering.Json.Reader

/-! # Decoders: from JSON to values of a type

A decoder takes a value either straight from the text, where faults further right are still
unseen, or from a value that has been read whole before. -/
namespace TreeLowering
set_option autoImplicit false

/-- Where a decoder finds its value. -/
inductive Source where
  /-- In the text, below `depth` open brackets. -/
  | text (depth : Nat)
  /-- In memory: the value is known to be holdable. -/
  | memory
deriving DecidableEq

namespace Source

/-- The source of what is inside a container. -/
def enter? : Source → Option Source
  | text depth => if depth < Json.nestingLimit then some (text (depth + 1)) else none
  | memory => some memory

/-- Reads a value into memory. -/
def hold (source : Source) (j : Json) : Except LoadError Unit :=
  match source with
  | text depth => if j.holdable depth then pure () else throw .malformed
  | memory => pure ()

/-- Reads past a value that is not needed. -/
def ignore (j : Json) : Except LoadError Unit :=
  if j.wellFormed then pure () else throw .malformed

end Source

abbrev Decoder (α : Type) : Type := Source → Json → Except LoadError α

namespace Decoder
variable {α β : Type}

def map (f : α → β) (d : Decoder α) : Decoder β := fun source j => (d source j).map f

def text : Decoder String
  | _, .string s => pure s
  | _, j => throw (.wrongType j)

def flag : Decoder Bool
  | _, .bool b => pure b
  | _, j => throw (.wrongType j)

/-- An unsigned 64-bit integer, written without fraction and exponent. -/
def natural : Decoder Nat
  | _, .number n =>
    match n.natural? with
    | some v => pure v
    | none => throw .malformed
  | _, j => throw (.wrongType j)

def double : Decoder Binary64
  | _, .number n =>
    match n.value? with
    | some x => pure x
    | none => throw .malformed
  | _, j => throw (.wrongType j)

/-- `null` stands for no value. -/
def optional (d : Decoder α) : Decoder (Option α)
  | _, .null => pure none
  | source, j => some <$> d source j

/-- Decodes the items of an array in order. -/
def items (d : Decoder α) (source : Source) : List Json → Except LoadError (List α)
  | [] => pure []
  | j :: rest => do
    let a ← d source j
    let as ← items d source rest
    pure (a :: as)

def list (d : Decoder α) : Decoder (List α)
  | source, .array js =>
    match source.enter? with
    | some inner => items d inner js
    | none => throw .malformed
  | _, j => throw (.wrongType j)

/-- A value of an enumeration, written as its name or as an object with the name as only key and
nothing as value. -/
def choice (options : List (String × α)) : Decoder α := fun source j =>
  let named (name : String) : Except LoadError α :=
    match options.lookup name with
    | some a => pure a
    | none => throw (.unknownVariant name (options.map Prod.fst))
  match source, j with
  | _, .string name => named name
  | .memory, .object [.mk (some name) payload] => do
    let a ← named name
    match payload with
    | .null | .object [] => pure a
    | payload => throw (.wrongType payload)
  | .text depth, .object (.mk (some name) payload :: rest) =>
    if depth < Json.nestingLimit then do
      let a ← named name
      match payload, rest with
      | .null, [] => pure a
      | .null, _ :: _ => throw .malformed
      | payload, _ => throw (.wrongType payload)
    else throw .malformed
  | _, _ => throw .malformed

/-- The first of several forms that loads; a failure inside a form is not reported by itself. -/
def firstOf (type : String) (forms : List (Decoder α)) : Decoder α := fun source j => do
  source.hold j
  match forms.findSome? fun d => (d .memory j).toOption with
  | some a => pure a
  | none => throw (.noMatchingForm type)

/-- Loads a whole text: one value with nothing but blanks behind it. -/
def load (d : Decoder α) (cs : List Char) : Except LoadError α :=
  let (j, rest) := Json.read cs
  match d (.text 0) j with
  | .error e => .error e
  | .ok a => if (Json.skipBlanks rest).isEmpty then .ok a else .error .malformed

end Decoder
end TreeLowering

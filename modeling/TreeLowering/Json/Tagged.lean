import TreeLowering.Json.Record

/-! # Tagged values: the member `type` chooses among variants -/
namespace TreeLowering
set_option autoImplicit false

/-- A variant of a tagged type: its tag, and how the other members are decoded. -/
structure Variant (α : Type) where
  tag : String
  body : Json → Except LoadError α

namespace Variant
variable {σ α β : Type}

/-- A variant that holds a record. -/
def ofRecord (tag : String) (r : Record σ α) : Variant α := ⟨tag, r.decoder .memory⟩

/-- A variant without fields. -/
def ofValue (tag : String) (a : α) : Variant α := ⟨tag, fun _ => pure a⟩

def tagField : String := "type"

/-- Finds a variant by its tag; a tag in memory may also be the variant's number. -/
def choose (variants : List (Variant α)) (source : Source) (j : Json) :
    Except LoadError (Variant α) :=
  match source, j with
  | _, .string tag =>
    match variants.find? fun v => v.tag == tag with
    | some v => pure v
    | none => throw (.unknownVariant tag (variants.map Variant.tag))
  | .memory, .number n =>
    match n.natural?.bind fun i => variants[i]? with
    | some v => pure v
    | none => throw .malformed
  | _, j => throw (.wrongType j)

/-- Takes members in order: the tag is checked when it is met, the others are held. -/
def members (variants : List (Variant α)) (source : Source) :
    List Member → Option (Variant α) → List Member → Except LoadError α
  | [], none, _ => throw (.missingField tagField)
  | [], some v, held => v.body (.object held.reverse)
  | .mk none _ :: _, _, _ => throw .malformed
  | .mk (some key) j :: rest, chosen, held =>
    if key = tagField then
      match chosen with
      | some _ => throw (.duplicateField tagField)
      | none => do
        let v ← choose variants source j
        members variants source rest (some v) held
    else do
      source.hold j
      members variants source rest chosen (.mk (some key) j :: held)

def holdAll (source : Source) : List Json → Except LoadError Unit
  | [] => pure ()
  | j :: rest => do
    source.hold j
    holdAll source rest

/-- A tagged value, written as an object or as an array that starts with the tag. -/
def decoder (variants : List (Variant α)) : Decoder α
  | source, .object ms =>
    match source.enter? with
    | some inner => members variants inner ms none []
    | none => throw .malformed
  | source, .array js =>
    match source.enter?, js with
    | some _, [] => throw (.missingField tagField)
    | some inner, j :: rest => do
      let v ← choose variants inner j
      holdAll inner rest
      v.body (.array rest)
    | none, _ => throw .malformed
  | _, j => throw (.wrongType j)

end Variant
end TreeLowering

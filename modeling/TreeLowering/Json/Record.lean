import TreeLowering.Json.Decoder

/-! # Records: decoders for objects with known members

A record is described by its fields in declaration order. Members are decoded in the order they
are written, a repeated field fails when it is met again, and missing fields are found at the
end in declaration order. `σ` holds what has been met so far. -/
namespace TreeLowering
set_option autoImplicit false

structure Record (σ α : Type) where
  start : σ
  /-- Takes a member; `none` if the record has no field of that name. -/
  meet : Source → String → Json → σ → Option (Except LoadError σ)
  finish : σ → Except LoadError α
  /-- Takes the fields from the front of an array, in declaration order. -/
  positional : Source → List Json → Except LoadError (α × List Json)

namespace Record
variable {σ τ α β : Type}

/-- A field that may be left out when there is a default. -/
def field (name : String) (d : Decoder α) (default? : Option α) : Record (Option α) α where
  start := none
  meet source key j seen :=
    if key = name then
      some (match seen with
        | some _ => throw (.duplicateField name)
        | none => some <$> d source j)
    else none
  finish
    | some a => pure a
    | none =>
      match default? with
      | some a => pure a
      | none => throw (.missingField name)
  positional source
    | j :: rest => do
      let a ← d source j
      pure (a, rest)
    | [] =>
      match default? with
      | some a => pure (a, [])
      | none => throw .malformed

def required (name : String) (d : Decoder α) : Record (Option α) α := field name d none

def withDefault (name : String) (d : Decoder α) (a : α) : Record (Option α) α :=
  field name d (some a)

/-- A field whose value may be `null` or left out. -/
def optional (name : String) (d : Decoder α) : Record (Option (Option α)) (Option α) :=
  field name d.optional (some none)

/-- The fields of one record followed by those of another. -/
def and (r : Record σ α) (s : Record τ β) : Record (σ × τ) (α × β) where
  start := (r.start, s.start)
  meet source key j seen :=
    match r.meet source key j seen.1 with
    | some result => some (result.map fun left => (left, seen.2))
    | none => (s.meet source key j seen.2).map fun result => result.map fun right => (seen.1, right)
  finish seen := do
    let a ← r.finish seen.1
    let b ← s.finish seen.2
    pure (a, b)
  positional source js := do
    let (a, js) ← r.positional source js
    let (b, js) ← s.positional source js
    pure ((a, b), js)

def map (f : α → β) (r : Record σ α) : Record σ β where
  start := r.start
  meet := r.meet
  finish seen := (r.finish seen).map f
  positional source js := (r.positional source js).map fun (a, rest) => (f a, rest)

/-- Takes members in order; members that are no fields are read past. -/
def members (r : Record σ α) (source : Source) : List Member → σ → Except LoadError α
  | [], seen => r.finish seen
  | .mk none _ :: _, _ => throw .malformed
  | .mk (some key) j :: rest, seen =>
    match r.meet source key j seen with
    | some result => do
      let seen ← result
      members r source rest seen
    | none => do
      Source.ignore j
      members r source rest seen

/-- Takes members in order; members that are no fields are held back for `inner`, which gets
them once all fields are known. -/
def flattened (r : Record σ α) (inner : α → List Member → Except LoadError β) (source : Source) :
    List Member → σ → List Member → Except LoadError β
  | [], seen, held => do
    let a ← r.finish seen
    inner a held.reverse
  | .mk none _ :: _, _, _ => throw .malformed
  | .mk (some key) j :: rest, seen, held =>
    match r.meet source key j seen with
    | some result => do
      let seen ← result
      flattened r inner source rest seen held
    | none => do
      source.hold j
      flattened r inner source rest seen (.mk (some key) j :: held)

/-- The record as an object. -/
def object (r : Record σ α) : Decoder α
  | source, .object ms =>
    match source.enter? with
    | some inner => r.members inner ms r.start
    | none => throw .malformed
  | _, j => throw (.wrongType j)

/-- The record as an object or as an array of its fields. -/
def decoder (r : Record σ α) : Decoder α
  | source, .array js =>
    match source.enter? with
    | some inner => do
      let (a, rest) ← r.positional inner js
      if rest.isEmpty then pure a else throw .malformed
    | none => throw .malformed
  | source, j => r.object source j

/-- An object with the record's fields, the other members going to `inner`. -/
def around (r : Record σ α) (inner : α → List Member → Except LoadError β) : Decoder β
  | source, .object ms =>
    match source.enter? with
    | some below => r.flattened inner below ms r.start []
    | none => throw .malformed
  | _, j => throw (.wrongType j)

end Record
end TreeLowering

import TreeLowering.Number.Notation

/-! # Numerals: JSON number literals and the doubles they denote

The double of a literal is found by collecting digits into a 64-bit significand and scaling it
by powers of ten that are themselves doubles, so it is not always the nearest one. -/
namespace TreeLowering
set_option autoImplicit false

/-- A number literal: digits before the point, digits after it (none when there is no point),
and an exponent as sign and digits. -/
structure Numeral where
  negative : Bool
  whole : List Char
  fraction : List Char
  exponent : Option (Bool × List Char)
deriving DecidableEq

namespace Numeral

def digitValue (c : Char) : Nat := c.toNat - '0'.toNat

/-- Splits a list of characters after its leading digits. -/
def digits (cs : List Char) : List Char × List Char :=
  (cs.takeWhile Char.isDigit, cs.dropWhile Char.isDigit)

/-- Digits after a point, if there is one; a point without digits is ill-formed. -/
def readFraction? : List Char → Option (List Char × List Char)
  | '.' :: rest =>
    match digits rest with
    | ([], _) => none
    | (ds, rest) => some (ds, rest)
  | cs => some ([], cs)

def readSign : List Char → Bool × List Char
  | '-' :: rest => (true, rest)
  | '+' :: rest => (false, rest)
  | cs => (false, cs)

/-- An exponent, if there is one; an exponent without digits is ill-formed. -/
def readExponent? : List Char → Option (Option (Bool × List Char) × List Char)
  | c :: rest =>
    if c = 'e' ∨ c = 'E' then
      match digits (readSign rest).2 with
      | ([], _) => none
      | (ds, after) => some (some ((readSign rest).1, ds), after)
    else some (none, c :: rest)
  | [] => some (none, [])

/-- A number has at least one digit before the point and no leading zero. -/
def validWhole : List Char → Bool
  | [] => false
  | ['0'] => true
  | c :: _ => c != '0'

/-- Reads a literal at the front of a text. -/
def read? (cs : List Char) : Option (Numeral × List Char) := do
  let (negative, rest) := match cs with
    | '-' :: rest => (true, rest)
    | cs => (false, cs)
  let (whole, rest) := digits rest
  if validWhole whole then
    let (fraction, rest) ← readFraction? rest
    let (exponent, rest) ← readExponent? rest
    pure (⟨negative, whole, fraction, exponent⟩, rest)
  else none

/-- The text of a literal; exponents are written with their sign. -/
def render (n : Numeral) : List Char :=
  (if n.negative then ['-'] else []) ++ n.whole
    ++ (if n.fraction.isEmpty then [] else '.' :: n.fraction)
    ++ (match n.exponent with
        | none => []
        | some (negative, ds) => 'e' :: (if negative then '-' else '+') :: ds)

/-- Significands are kept below `2 ^ 64`. -/
def significandLimit : Nat := Nat.pow 2 64

/-- Written exponents are kept below `2 ^ 31`. -/
def exponentLimit : Nat := Nat.pow 2 31

/-- Collects digits while the significand fits; returns it with the digits left over. -/
def collect (significand : Nat) : List Char → Nat × List Char
  | [] => (significand, [])
  | c :: rest =>
    if significand * 10 + digitValue c < significandLimit then
      collect (significand * 10 + digitValue c) rest
    else (significand, c :: rest)

/-- The value of an unsigned 64-bit integer literal. -/
def natural? (n : Numeral) : Option Nat :=
  if n.negative ∨ n.fraction ≠ [] ∨ n.exponent ≠ none then none
  else match collect 0 n.whole with
    | (v, []) => some v
    | (_, _ :: _) => none

/-- The value of a written exponent, unless it is `2 ^ 31` or more. -/
def exponentValue? (value : Nat) : List Char → Option Nat
  | [] => some value
  | c :: rest =>
    if value * 10 + digitValue c < exponentLimit then exponentValue? (value * 10 + digitValue c) rest
    else none

/-- Scales a magnitude by `10 ^ exponent` in steps that a table of the powers up to `10 ^ 308`
allows; `none` when the result is too large. -/
def scaleByTen : Nat → Binary64 → Int → Option Binary64
  | 0, f, _ => some f
  | fuel + 1, f, exponent =>
    if exponent.natAbs ≤ 308 then
      if 0 ≤ exponent then
        let p := f.mulAbs (Binary64.powTen exponent.natAbs)
        if p.isInfinite then none else some p
      else some (f.divAbs (Binary64.powTen exponent.natAbs))
    else if f.isZero then some f
    else if 0 ≤ exponent then none
    else scaleByTen fuel (f.divAbs (Binary64.powTen 308)) (exponent + 308)

/-- The magnitude `significand * 10 ^ exponent`; a significand below `2 ^ 64` underflows to zero
within three steps of 308. -/
def magnitude? (significand : Nat) (exponent : Int) : Option Binary64 :=
  scaleByTen 4 (Binary64.ofNat significand) exponent

/-- Significand and decimal exponent of a literal without its written exponent: digits that do
not fit are dropped, those before the point raising the exponent. -/
def scaled (n : Numeral) : Nat × Int :=
  let (significand, dropped) := collect 0 n.whole
  let (significand', left) := collect significand n.fraction
  (significand', (dropped.length : Int) - ((n.fraction.length - left.length : Nat) : Int))

/-- The double of a literal, or `none` if it is out of range. -/
def value? (n : Numeral) : Option Binary64 :=
  let sign (x : Binary64) : Binary64 := if n.negative then x.neg else x
  let (significand, exponent) := n.scaled
  match n.exponent with
  | none =>
    if n.fraction = [] ∧ exponent = 0 then some (sign (Binary64.ofNat significand))
    else (magnitude? significand exponent).map sign
  | some (negative, ds) =>
    match exponentValue? 0 ds with
    | none =>
      if significand ≠ 0 ∧ negative = false then none else some (sign (Binary64.zero false))
    | some e => (magnitude? significand (if negative then exponent - e else exponent + e)).map sign

/-- The literal of a natural number. -/
def ofNat (n : Nat) : Numeral := ⟨false, Nat.toDigits 10 n, [], none⟩

/-- The literal of a finite double: the shortest digits that read back, plain with at least one
decimal from `10 ^ (-5)` up to but excluding `10 ^ 16`, scientific otherwise. -/
def ofBinary64 (x : Binary64) : Numeral :=
  let d := x.shortest .even
  let point := d.pointPosition
  if x.isZero then ⟨x.negative, ['0'], ['0'], none⟩
  else if -5 < point ∧ point ≤ 16 then
    match d.plainParts with
    | (whole, []) => ⟨x.negative, whole, ['0'], none⟩
    | (whole, fraction) => ⟨x.negative, whole, fraction, none⟩
  else
    let e := point - 1
    ⟨x.negative, d.digitChars.take 1, d.digitChars.drop 1,
      some (decide (e < 0), Nat.toDigits 10 e.natAbs)⟩

end Numeral
end TreeLowering

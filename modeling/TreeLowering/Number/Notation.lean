import TreeLowering.Number.Shortest

/-! # Decimal notation: how a number is spelled

`plain` never uses an exponent; it is the notation of emitted number literals. `scientific`
has one digit before the point. -/
namespace TreeLowering
set_option autoImplicit false

namespace Decimal

def digitChars (d : Decimal) : List Char := Nat.toDigits 10 d.digits

/-- Number of digits before the point; zero or less when the number starts with `0.`. -/
def pointPosition (d : Decimal) : Int := d.digitChars.length + d.exponent

/-- Digits before and after the point in plain notation. -/
def plainParts (d : Decimal) : List Char × List Char :=
  let ds := d.digitChars
  match d.exponent with
  | .ofNat e => (ds ++ List.replicate e '0', [])
  | .negSucc e =>
    let places := e + 1
    if places < ds.length then (ds.take (ds.length - places), ds.drop (ds.length - places))
    else (['0'], List.replicate (places - ds.length) '0' ++ ds)

def plain (d : Decimal) : List Char :=
  match d.plainParts with
  | (whole, []) => whole
  | (whole, fraction) => whole ++ '.' :: fraction

end Decimal

namespace Binary64

/-- Spelling of an emitted number literal: the shortest digits that read back, in plain
notation, with no point in whole numbers. -/
def literal (x : Binary64) : String :=
  if x.isNaN then "NaN"
  else
    let sign := if x.negative then "-" else ""
    if x.isInfinite then sign ++ "Infinity"
    else sign ++ String.ofList (x.shortest .up).plain

end Binary64
end TreeLowering

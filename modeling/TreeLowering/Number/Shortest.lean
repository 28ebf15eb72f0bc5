import TreeLowering.Number.Binary64

/-! # The shortest decimal that reads back as a given double

A decimal reads back as a double exactly when it lies in the double's rounding interval, which
includes its ends when the significand is even. Grids of 1, 2, … 17 significant digits are
tried in turn; on each the two neighbours of the value are the only candidates needed. -/
namespace TreeLowering
set_option autoImplicit false

/-- The decimal `digits * 10 ^ exponent`. -/
structure Decimal where
  digits : Nat
  exponent : Int
deriving DecidableEq, Inhabited

/-- Which of two equally near decimals is taken. -/
inductive TieRule where
  | up
  | even
deriving DecidableEq, Inhabited

namespace Decimal

/-- The value of a non-negative decimal as a numerator and a denominator. -/
def ratio (d : Decimal) : Nat × Nat :=
  match d.exponent with
  | .ofNat e => (d.digits * Nat.pow 10 e, 1)
  | .negSucc e => (d.digits, Nat.pow 10 (e + 1))

/-- Drops trailing zeros of the digits, at most `fuel` of them. -/
def trimZeros : Nat → Decimal → Decimal
  | 0, d => d
  | fuel + 1, d =>
    if d.digits ≠ 0 ∧ d.digits % 10 = 0 then trimZeros fuel ⟨d.digits / 10, d.exponent + 1⟩ else d

/-- The same value without trailing zeros; a number has no more digits in base ten than in base
two. -/
def trim (d : Decimal) : Decimal := trimZeros (d.digits.log2 + 1) d

/-- The least `k` with `num / den < 10 ^ (k + 1)`, for a positive quotient. -/
def leadingExponent (num den : Nat) : Int :=
  if den ≤ num then ((Nat.toDigits 10 (num / den)).length : Int) - 1
  else -((Nat.toDigits 10 ((den - 1) / num)).length : Int)

end Decimal

/-- The reals that round to one double, in quarters of the least positive double. -/
structure RoundingInterval where
  low : Nat
  value : Nat
  high : Nat
  closed : Bool

namespace RoundingInterval

/-- The number of quarter units in one. -/
def quartersPerOne : Nat := 4 * Binary64.unitsPerOne

/-- Whether `num / den` lies in the interval. -/
def contains (i : RoundingInterval) (num den : Nat) : Bool :=
  let p := num * quartersPerOne
  if i.closed then i.low * den ≤ p && p ≤ i.high * den
  else i.low * den < p && p < i.high * den

/-- The decimal on the grid `10 ^ exponent` nearest to the value that lies in the interval. -/
def candidate? (i : RoundingInterval) (tie : TieRule) (exponent : Int) : Option Decimal :=
  let grid := Decimal.ratio ⟨1, exponent⟩
  let num := i.value * grid.2
  let den := quartersPerOne * grid.1
  let below : Decimal := ⟨num / den, exponent⟩
  let above : Decimal := ⟨num / den + 1, exponent⟩
  let hit (d : Decimal) : Bool := i.contains d.ratio.1 d.ratio.2
  let rest := 2 * (num % den)
  let goUp : Bool := den < rest || rest == den && (tie == .up || below.digits % 2 == 1)
  match hit below, hit above with
  | false, false => none
  | true, false => some below
  | false, true => some above
  | true, true => some (if goUp then above else below)

end RoundingInterval

namespace Binary64

/-- Rounding interval of a finite non-zero double. The gap below a power of two is half the gap
above it, except at the least exponent. -/
def interval (x : Binary64) : RoundingInterval :=
  let unit := Nat.pow 2 x.scale
  let halfBelow := if x.significand = Nat.pow 2 52 ∧ 0 < x.scale then unit else 2 * unit
  { low := 4 * x.units - halfBelow
    value := 4 * x.units
    high := 4 * x.units + 2 * unit
    closed := x.significand % 2 == 0 }

/-- Every double is a decimal: `2 ^ (-1074)` is `5 ^ 1074 * 10 ^ (-1074)`. -/
def exactDecimal (x : Binary64) : Decimal := ⟨x.units * Nat.pow 5 1074, -1074⟩

/-- The decimal with the fewest digits that reads back as the magnitude of `x`, the nearest of
those, without trailing zeros. -/
def shortest (tie : TieRule) (x : Binary64) : Decimal :=
  if x.isZero then ⟨0, 0⟩
  else
    let top := Decimal.leadingExponent x.units unitsPerOne
    let grids := (List.range 17).map fun n => top - Int.ofNat n
    ((grids.findSome? (x.interval.candidate? tie)).getD x.exactDecimal).trim

end Binary64
end TreeLowering

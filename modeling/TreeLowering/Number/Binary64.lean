/-! # Binary64: IEEE doubles as 64 bits, with exact magnitudes and correct rounding

The magnitude of a finite double is `significand * 2 ^ scale`, counted in units of the least
positive double `2 ^ (-1074)`. Everything is `Nat` arithmetic, so every operation here can be
evaluated and reasoned about in the kernel. -/
namespace TreeLowering
set_option autoImplicit false

/-- An IEEE 754 double, given by its bits. -/
structure Binary64 where
  bits : UInt64
deriving DecidableEq, Inhabited

/-- The quotient `a / b` rounded to the nearest integer, a tie going to the even one. -/
def roundHalfEven (a b : Nat) : Nat :=
  let q := a / b
  let r := 2 * (a % b)
  if r < b then q else if b < r then q + 1 else q + q % 2

namespace Binary64

/-- Bits of positive infinity; finite magnitudes are exactly the smaller ones. -/
def infinityBits : Nat := 2047 * Nat.pow 2 52

def magnitude (x : Binary64) : Nat := x.bits.toNat % Nat.pow 2 63

def negative (x : Binary64) : Bool := Nat.pow 2 63 ≤ x.bits.toNat

def isNaN (x : Binary64) : Bool := infinityBits < x.magnitude

def isInfinite (x : Binary64) : Bool := x.magnitude == infinityBits

def isZero (x : Binary64) : Bool := x.magnitude == 0

/-- Power of two that the significand is scaled by, in units of the least positive double. -/
def scale (x : Binary64) : Nat := x.magnitude / Nat.pow 2 52 - 1

/-- Significand with the hidden bit of a normal double. -/
def significand (x : Binary64) : Nat := x.magnitude - x.scale * Nat.pow 2 52

/-- A finite double's magnitude in units of `2 ^ (-1074)`. -/
def units (x : Binary64) : Nat := x.significand * Nat.pow 2 x.scale

/-- The number of units in one. -/
def unitsPerOne : Nat := Nat.pow 2 1074

/-- The double with the given sign and magnitude bits. -/
def ofMagnitude (negative : Bool) (magnitude : Nat) : Binary64 :=
  ⟨UInt64.ofNat (if negative then Nat.pow 2 63 + magnitude else magnitude)⟩

def zero (negative : Bool) : Binary64 := ofMagnitude negative 0

def neg (x : Binary64) : Binary64 := ofMagnitude (!x.negative) x.magnitude

/-- Magnitude bits of the double nearest to `num / den`, a tie going to the even significand.
A scale of `s` leaves a significand of at most 53 bits, and a significand that rounds up to
`2 ^ 53` carries into the exponent by itself. -/
def nearestMagnitude (num den : Nat) : Nat :=
  let scaled := num * unitsPerOne
  let s := (scaled / den).log2 - 52
  min infinityBits (s * Nat.pow 2 52 + roundHalfEven scaled (den * Nat.pow 2 s))

/-- The double nearest to `num / den`, with the given sign. -/
def ofRatio (negative : Bool) (num den : Nat) : Binary64 :=
  ofMagnitude negative (nearestMagnitude num den)

def ofNat (n : Nat) : Binary64 := ofRatio false n 1

/-- Product of two finite magnitudes, rounded to nearest. -/
def mulAbs (x y : Binary64) : Binary64 :=
  ofRatio false (x.units * y.units) (unitsPerOne * unitsPerOne)

/-- Quotient of a finite magnitude by a finite non-zero one, rounded to nearest. -/
def divAbs (x y : Binary64) : Binary64 := ofRatio false x.units y.units

/-- The double nearest to `10 ^ k`. -/
def powTen (k : Nat) : Binary64 := ofNat (Nat.pow 10 k)

end Binary64
end TreeLowering

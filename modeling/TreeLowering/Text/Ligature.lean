import TreeLowering.Text.Mark

/-! # Letters that are drawn as one

In some scripts certain letters merge with the letter before them, some of them only if a joiner
stands in between. Characters without a shape do not keep them apart. -/
namespace TreeLowering.Text
set_option autoImplicit false

/-- What a ligature ends in. -/
inductive Ending where
  /-- Arabic alef, after lam. -/
  | alef
  /-- Hebrew lamed, joined to alef. -/
  | lamed
  /-- Buginese ya, joined to the vowel sign i. -/
  | ya
  /-- The Buginese vowel sign i and what is joined to it, after the letter a. -/
  | signYa
  /-- A Tifinagh consonant. -/
  | consonant
  /-- A Tifinagh consonant after the sign that makes it one with the consonant before. -/
  | linkedConsonant
  /-- Old Turkic orkhon i, joined to ic. -/
  | orkhonI
  /-- The second letter of a Lisu tone. -/
  | tone
  /-- A Khmer letter that takes no room under the letter before it. -/
  | subscript
  /-- The Kirat Rai vowel sign e. -/
  | signE
  /-- The Kirat Rai vowel sign ai, which is twice the sign e. -/
  | signAi
deriving DecidableEq, Inhabited

def alefRanges : List (Nat × Nat) :=
  [(0x622, 0x623), (0x625, 0x625), (0x627, 0x627), (0x671, 0x673), (0x675, 0x675), (0x773, 0x774),
    (0x870, 0x882)]

def lamRanges : List (Nat × Nat) :=
  [(0x644, 0x644), (0x6b5, 0x6b8), (0x76a, 0x76a), (0x8a6, 0x8a6), (0x8c7, 0x8c7)]

/-- Khmer letters whose subscript forms take no room. -/
def subscriptRanges : List (Nat × Nat) :=
  [(0x1780, 0x1782), (0x1784, 0x1787), (0x1789, 0x178c), (0x178e, 0x1793), (0x1795, 0x1798),
    (0x179b, 0x179d), (0x17a0, 0x17a0), (0x17a2, 0x17a2), (0x17a7, 0x17a7), (0x17ab, 0x17ac),
    (0x17af, 0x17af)]

/-- Marks without a shape. -/
def fillerRanges : List (Nat × Nat) :=
  [(0x34f, 0x34f), (0x17b4, 0x17b5), (0x180b, 0x180d), (0x180f, 0x180f), (0x200d, 0x200d),
    (0xfe00, 0xfe0f), (0xe0100, 0xe01ef)]

def isTifinaghConsonant (c : Char) : Bool := inRanges [(0x2d31, 0x2d65), (0x2d6f, 0x2d6f)] c.toNat

namespace Ending

def ofChar? (c : Char) : Option Ending :=
  match c.toNat with
  | 0x5dc => some lamed
  | 0x1a10 => some ya
  | 0xa4fc | 0xa4fd => some tone
  | 0x10c03 => some orkhonI
  | 0x16d67 => some signE
  | 0x16d68 => some signAi
  | n =>
    if inRanges alefRanges n then some alef
    else if inRanges subscriptRanges n then some subscript
    else if isTifinaghConsonant c then some consonant
    else none

/-- Whether a character may stand between the ending and what it merges with. -/
def spans (c : Char) : Ending → Bool
  | alef => isTransparent c
  | signE | signAi => false
  | _ => inRanges fillerRanges c.toNat

/-- The columns that a character adds if it merges with the ending, and what their ligature is the
ending of. `isJoined` tells whether a joiner stands between them. -/
def merge? (c : Char) (isJoined : Bool) : Ending → Option (Int × Option Ending)
  | alef => if inRanges lamRanges c.toNat then some (0, none) else none
  | lamed => if isJoined && c.toNat == 0x5d0 then some (0, none) else none
  | ya => if isJoined && c.toNat == 0x1a17 then some (0, some signYa) else none
  | signYa => if c.toNat == 0x1a15 then some (0, none) else none
  | consonant =>
    if c.toNat == 0x2d7f then some (1, some linkedConsonant)
    else if isJoined && isTifinaghConsonant c then some (0, none)
    else none
  | linkedConsonant => if isTifinaghConsonant c then some (-1, none) else none
  | orkhonI => if isJoined && c.toNat == 0x10c32 then some (0, none) else none
  | tone => if 0xa4f8 ≤ c.toNat && c.toNat ≤ 0xa4fb then some (0, none) else none
  | subscript => if c.toNat == 0x17d2 then some (-1, none) else none
  | signE =>
    match c.toNat with
    | 0x16d63 | 0x16d69 => some (0, none)
    | 0x16d67 => some (0, some signAi)
    | 0x16d68 => some (1, some signE)
    | _ => none
  | signAi => if c.toNat == 0x16d63 then some (0, none) else none

end Ending
end TreeLowering.Text

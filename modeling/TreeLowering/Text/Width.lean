import TreeLowering.Text.Emoji
import TreeLowering.Text.Ligature

/-! # The width of text in columns

A text is measured from its end: what a character adds depends on what follows it. -/
namespace TreeLowering.Text
set_option autoImplicit false

/-- Characters that take two columns, in ascending order; pictures, marks and invisible characters
may lie inside a range. -/
def wideRanges : List (Nat × Nat) :=
  [(0x1100, 0x115f), (0x2329, 0x232a), (0x2630, 0x2637), (0x268a, 0x268f), (0x2e80, 0x2e99),
    (0x2e9b, 0x2ef3), (0x2f00, 0x2fd5), (0x2ff0, 0x303e), (0x3041, 0x3096), (0x309b, 0x30ff),
    (0x3105, 0x312f), (0x3131, 0x318e), (0x3190, 0x31e5), (0x31ef, 0x321e), (0x3220, 0x3247),
    (0x3250, 0xa48c), (0xa490, 0xa4c6), (0xa960, 0xa97c), (0xac00, 0xd7a3), (0xf900, 0xfaff),
    (0xfe10, 0xfe19), (0xfe30, 0xfe52), (0xfe54, 0xfe66), (0xfe68, 0xfe6b), (0xff01, 0xff60),
    (0xffe0, 0xffe6), (0x16fe0, 0x16fe3), (0x16ff2, 0x16ff6), (0x17000, 0x18cd5),
    (0x18cff, 0x18d1e), (0x18d80, 0x18df2), (0x1aff0, 0x1aff3), (0x1aff5, 0x1affb),
    (0x1affd, 0x1affe), (0x1b000, 0x1b128), (0x1b132, 0x1b132), (0x1b150, 0x1b152),
    (0x1b155, 0x1b155), (0x1b164, 0x1b168), (0x1b170, 0x1b2fb), (0x1d300, 0x1d356),
    (0x1d360, 0x1d376), (0x1f1ae, 0x1f1ae), (0x1f200, 0x1f202), (0x1f210, 0x1f23b),
    (0x1f240, 0x1f248), (0x1f260, 0x1f265), (0x1f6d9, 0x1f6d9), (0x1f7da, 0x1f7da),
    (0x20000, 0x2fffd), (0x30000, 0x3fffd)]

/-- Characters without a column of their own, beside the marks: invisible ones, signs drawn over
what follows them, and the vowels and finals that complete a Hangul syllable. -/
def invisibleRanges : List (Nat × Nat) :=
  [(0xad, 0xad), (0x605, 0x605), (0x61c, 0x61c), (0x70f, 0x70f), (0x890, 0x891), (0x8e2, 0x8e2),
    (0xd4e, 0xd4e), (0x1160, 0x11ff), (0x180e, 0x180e), (0x200b, 0x200b), (0x200d, 0x200f),
    (0x202a, 0x202e), (0x2060, 0x206f), (0x3164, 0x3164), (0xa8fa, 0xa8fa), (0xd7b0, 0xd7c6),
    (0xd7cb, 0xd7fb), (0xfeff, 0xfeff), (0xffa0, 0xffa0), (0xfff0, 0xfff8), (0x111c2, 0x111c3),
    (0x113d1, 0x113d1), (0x1193f, 0x1193f), (0x11941, 0x11941), (0x11a84, 0x11a89),
    (0x11d46, 0x11d46), (0x11f02, 0x11f02), (0x1bca0, 0x1bca3), (0x1d173, 0x1d17a),
    (0xe0000, 0xe001f), (0xe0080, 0xe00ff), (0xe01f0, 0xe0fff)]

/-- Columns of a character alone. -/
def charWidth (c : Char) : Nat :=
  let n := c.toNat
  if n ≤ 0xa0 || n = 0x2d7f then 1
  else if isMark c || inRanges invisibleRanges n then 0
  else if n = 0x17d8 then 3
  else if isRegionalIndicator c then 1
  else if n = 0x17a4 || inRanges pictureRanges n || inRanges wideRanges n then 2
  else 1

/-- A selector asks for a form of the character before it. -/
inductive Selector where
  | picture
  | text
  | fullwidth
deriving DecidableEq, Inhabited

def Selector.ofChar? (c : Char) : Option Selector :=
  match c with
  | '\ufe0f' => some picture
  | '\ufe0e' => some text
  | '\ufe01' => some fullwidth
  | _ => none

/-- What follows a character, as far as it matters to the width. -/
inductive Follower where
  | other
  | lineFeed
  | ending (e : Ending) (isJoined : Bool)
  | picture (p : Picture)
deriving DecidableEq, Inhabited

namespace Follower

def ofEnding : Option Ending → Follower
  | some e => ending e false
  | none => other

def ofChar (c : Char) : Follower :=
  match Picture.ofChar? c with
  | some p => picture p
  | none => if c = '\n' then lineFeed else ofEnding (Ending.ofChar? c)

/-- The columns that a character adds if it makes one with what follows it, and what they are to
the character before. -/
def merge? (c : Char) : Follower → Option (Int × Follower)
  | other => none
  | lineFeed => if c = '\r' then some (0, other) else none
  | ending e isJoined =>
    if e.spans c then some (0, ending e (isJoined || c == joiner))
    else (e.merge? c isJoined).map fun (n, e) => (n, ofEnding e)
  | picture p => (p.extend? c).map fun (n, p) => (n, picture p)

/-- What still follows across a selector. -/
def across (c : Char) (s : Selector) : Follower → Follower
  | ending e isJoined => if e.spans c then ending e isJoined else other
  | picture .joined => if s = .picture then picture .joined else other
  | picture .joinedFrame => if s = .picture then picture .joinedFrame else other
  | _ => other

/-- What follows across a selector that asks for a form which the character lacks. -/
def acrossVain : Follower → Follower
  | picture _ => other
  | f => f

def isPicture : Follower → Bool
  | picture _ => true
  | _ => false

end Follower

/-- Quotation marks that have a full-width form. -/
def isQuotationMark (c : Char) : Bool := c == '‘' || c == '’' || c == '“' || c == '”'

/-- What follows a character, with the selector in between. -/
structure Following where
  follower : Follower
  selector : Option Selector
deriving DecidableEq, Inhabited

namespace Following

def nothing : Following := ⟨.other, none⟩

/-- The columns of a character in the form that is asked for, if it has that form. -/
def selected? (c : Char) (f : Following) : Option (Int × Follower) :=
  match f.selector with
  | none => none
  | some .picture =>
    if hasPictureForm c then some (if f.follower.isPicture then 0 else 2, .picture .whole) else none
  | some .text => if hasTextForm c then some (1, .other) else none
  | some .fullwidth => if isQuotationMark c then some (2, .other) else none

/-- What follows a character that lacks the form asked for. -/
def bare (f : Following) : Follower :=
  if f.selector.isSome then f.follower.acrossVain else f.follower

/-- The columns that a character adds, and what it is to the one before it. -/
def before (c : Char) (f : Following) : Int × Following :=
  match f.selected? c with
  | some (n, g) => (n, ⟨g, none⟩)
  | none =>
    match Selector.ofChar? c with
    | some s => (0, ⟨f.bare.across c s, some s⟩)
    | none =>
      match f.bare.merge? c with
      | some (n, g) => (n, ⟨g, none⟩)
      | none => (charWidth c, ⟨.ofChar c, none⟩)

end Following

/-- Columns of a text, and what it is to a character before it. -/
def measured (cs : List Char) : Int × Following :=
  cs.foldr (fun c (n, f) => let (k, g) := f.before c; (k + n, g)) (0, .nothing)

/-- Columns that a text takes. -/
def width (s : String) : Nat := (measured s.toList).1.toNat

end TreeLowering.Text

import TreeLowering.Text.Mark

/-! # Pictures among text

Some characters are pictures. A selector after a character can ask for its picture or for its text
form; a skin tone, a joiner or a second regional indicator makes one picture of several
characters. -/
namespace TreeLowering.Text
set_option autoImplicit false

/-- Characters that are shown as pictures unless asked otherwise, regional indicators apart. -/
def pictureRanges : List (Nat × Nat) :=
  [(0x231a, 0x231b), (0x23e9, 0x23ec), (0x23f0, 0x23f0), (0x23f3, 0x23f3), (0x25fd, 0x25fe),
    (0x2614, 0x2615), (0x2648, 0x2653), (0x267f, 0x267f), (0x2693, 0x2693), (0x26a1, 0x26a1),
    (0x26aa, 0x26ab), (0x26bd, 0x26be), (0x26c4, 0x26c5), (0x26ce, 0x26ce), (0x26d4, 0x26d4),
    (0x26ea, 0x26ea), (0x26f2, 0x26f3), (0x26f5, 0x26f5), (0x26fa, 0x26fa), (0x26fd, 0x26fd),
    (0x2705, 0x2705), (0x270a, 0x270b), (0x2728, 0x2728), (0x274c, 0x274c), (0x274e, 0x274e),
    (0x2753, 0x2755), (0x2757, 0x2757), (0x2795, 0x2797), (0x27b0, 0x27b0), (0x27bf, 0x27bf),
    (0x2b1b, 0x2b1c), (0x2b50, 0x2b50), (0x2b55, 0x2b55), (0x1f004, 0x1f004), (0x1f0cf, 0x1f0cf),
    (0x1f18e, 0x1f18e), (0x1f191, 0x1f19a), (0x1f201, 0x1f201), (0x1f21a, 0x1f21a),
    (0x1f22f, 0x1f22f), (0x1f232, 0x1f236), (0x1f238, 0x1f23a), (0x1f250, 0x1f251),
    (0x1f300, 0x1f320), (0x1f32d, 0x1f335), (0x1f337, 0x1f37c), (0x1f37e, 0x1f393),
    (0x1f3a0, 0x1f3ca), (0x1f3cf, 0x1f3d3), (0x1f3e0, 0x1f3f0), (0x1f3f4, 0x1f3f4),
    (0x1f3f8, 0x1f43e), (0x1f440, 0x1f440), (0x1f442, 0x1f4fc), (0x1f4ff, 0x1f53d),
    (0x1f54b, 0x1f54e), (0x1f550, 0x1f567), (0x1f57a, 0x1f57a), (0x1f595, 0x1f596),
    (0x1f5a4, 0x1f5a4), (0x1f5fb, 0x1f64f), (0x1f680, 0x1f6c5), (0x1f6cc, 0x1f6cc),
    (0x1f6d0, 0x1f6d2), (0x1f6d5, 0x1f6d8), (0x1f6dc, 0x1f6df), (0x1f6eb, 0x1f6ec),
    (0x1f6f4, 0x1f6fc), (0x1f7e0, 0x1f7eb), (0x1f7f0, 0x1f7f0), (0x1f90c, 0x1f93a),
    (0x1f93c, 0x1f945), (0x1f947, 0x1f9ff), (0x1fa70, 0x1fa7c), (0x1fa80, 0x1fa8a),
    (0x1fa8e, 0x1fac6), (0x1fac8, 0x1fac8), (0x1facd, 0x1fadc), (0x1fadf, 0x1faea),
    (0x1faef, 0x1faf8)]

/-- Characters that are shown as text and have a picture form. -/
def pictureFormRanges : List (Nat × Nat) :=
  [(0x23, 0x23), (0x2a, 0x2a), (0x30, 0x39), (0xa9, 0xa9), (0xae, 0xae), (0x203c, 0x203c),
    (0x2049, 0x2049), (0x2122, 0x2122), (0x2139, 0x2139), (0x2194, 0x2199), (0x21a9, 0x21aa),
    (0x2328, 0x2328), (0x23cf, 0x23cf), (0x23ed, 0x23ef), (0x23f1, 0x23f2), (0x23f8, 0x23fa),
    (0x24c2, 0x24c2), (0x25aa, 0x25ab), (0x25b6, 0x25b6), (0x25c0, 0x25c0), (0x25fb, 0x25fc),
    (0x2600, 0x2604), (0x260e, 0x260e), (0x2611, 0x2611), (0x2618, 0x2618), (0x261d, 0x261d),
    (0x2620, 0x2620), (0x2622, 0x2623), (0x2626, 0x2626), (0x262a, 0x262a), (0x262e, 0x262f),
    (0x2638, 0x263a), (0x2640, 0x2640), (0x2642, 0x2642), (0x265f, 0x2660), (0x2663, 0x2663),
    (0x2665, 0x2666), (0x2668, 0x2668), (0x267b, 0x267b), (0x267e, 0x267e), (0x2692, 0x2692),
    (0x2694, 0x2697), (0x2699, 0x2699), (0x269b, 0x269c), (0x26a0, 0x26a0), (0x26a7, 0x26a7),
    (0x26b0, 0x26b1), (0x26c8, 0x26c8), (0x26cf, 0x26cf), (0x26d1, 0x26d1), (0x26d3, 0x26d3),
    (0x26e9, 0x26e9), (0x26f0, 0x26f1), (0x26f4, 0x26f4), (0x26f7, 0x26f9), (0x2702, 0x2702),
    (0x2708, 0x2709), (0x270c, 0x270d), (0x270f, 0x270f), (0x2712, 0x2712), (0x2714, 0x2714),
    (0x2716, 0x2716), (0x271d, 0x271d), (0x2721, 0x2721), (0x2733, 0x2734), (0x2744, 0x2744),
    (0x2747, 0x2747), (0x2763, 0x2764), (0x27a1, 0x27a1), (0x2934, 0x2935), (0x2b05, 0x2b07),
    (0x3030, 0x3030), (0x303d, 0x303d), (0x3297, 0x3297), (0x3299, 0x3299), (0x1f170, 0x1f171),
    (0x1f17e, 0x1f17f), (0x1f202, 0x1f202), (0x1f237, 0x1f237), (0x1f321, 0x1f321),
    (0x1f324, 0x1f32c), (0x1f336, 0x1f336), (0x1f37d, 0x1f37d), (0x1f396, 0x1f397),
    (0x1f399, 0x1f39b), (0x1f39e, 0x1f39f), (0x1f3cb, 0x1f3ce), (0x1f3d4, 0x1f3df),
    (0x1f3f3, 0x1f3f3), (0x1f3f5, 0x1f3f5), (0x1f3f7, 0x1f3f7), (0x1f43f, 0x1f43f),
    (0x1f441, 0x1f441), (0x1f4fd, 0x1f4fd), (0x1f549, 0x1f54a), (0x1f56f, 0x1f570),
    (0x1f573, 0x1f579), (0x1f587, 0x1f587), (0x1f58a, 0x1f58d), (0x1f590, 0x1f590),
    (0x1f5a5, 0x1f5a5), (0x1f5a8, 0x1f5a8), (0x1f5b1, 0x1f5b2), (0x1f5bc, 0x1f5bc),
    (0x1f5c2, 0x1f5c4), (0x1f5d1, 0x1f5d3), (0x1f5dc, 0x1f5de), (0x1f5e1, 0x1f5e1),
    (0x1f5e3, 0x1f5e3), (0x1f5e8, 0x1f5e8), (0x1f5ef, 0x1f5ef), (0x1f5f3, 0x1f5f3),
    (0x1f5fa, 0x1f5fa), (0x1f6cb, 0x1f6cb), (0x1f6cd, 0x1f6cf), (0x1f6e0, 0x1f6e5),
    (0x1f6e9, 0x1f6e9), (0x1f6f0, 0x1f6f0), (0x1f6f3, 0x1f6f3)]

/-- Characters that are shown as pictures and have a narrow text form. -/
def textFormRanges : List (Nat × Nat) :=
  [(0x231a, 0x231b), (0x23e9, 0x23ec), (0x23f0, 0x23f0), (0x23f3, 0x23f3), (0x25fd, 0x25fe),
    (0x2614, 0x2615), (0x2648, 0x2653), (0x267f, 0x267f), (0x2693, 0x2693), (0x26a1, 0x26a1),
    (0x26aa, 0x26ab), (0x26bd, 0x26be), (0x26c4, 0x26c5), (0x26ce, 0x26ce), (0x26d4, 0x26d4),
    (0x26ea, 0x26ea), (0x26f2, 0x26f3), (0x26f5, 0x26f5), (0x26fa, 0x26fa), (0x26fd, 0x26fd),
    (0x2705, 0x2705), (0x270a, 0x270b), (0x2728, 0x2728), (0x274c, 0x274c), (0x274e, 0x274e),
    (0x2753, 0x2755), (0x2757, 0x2757), (0x2795, 0x2797), (0x27b0, 0x27b0), (0x27bf, 0x27bf),
    (0x2b1b, 0x2b1c), (0x2b50, 0x2b50), (0x2b55, 0x2b55), (0x1f004, 0x1f004), (0x1f30d, 0x1f30f),
    (0x1f315, 0x1f315), (0x1f31c, 0x1f31c), (0x1f378, 0x1f378), (0x1f393, 0x1f393),
    (0x1f3a7, 0x1f3a7), (0x1f3ac, 0x1f3ae), (0x1f3c2, 0x1f3c2), (0x1f3c4, 0x1f3c4),
    (0x1f3c6, 0x1f3c6), (0x1f3ca, 0x1f3ca), (0x1f3e0, 0x1f3e0), (0x1f3ed, 0x1f3ed),
    (0x1f408, 0x1f408), (0x1f415, 0x1f415), (0x1f41f, 0x1f41f), (0x1f426, 0x1f426),
    (0x1f442, 0x1f442), (0x1f446, 0x1f449), (0x1f44d, 0x1f44e), (0x1f453, 0x1f453),
    (0x1f46a, 0x1f46a), (0x1f47d, 0x1f47d), (0x1f4a3, 0x1f4a3), (0x1f4b0, 0x1f4b0),
    (0x1f4b3, 0x1f4b3), (0x1f4bb, 0x1f4bb), (0x1f4bf, 0x1f4bf), (0x1f4cb, 0x1f4cb),
    (0x1f4da, 0x1f4da), (0x1f4df, 0x1f4df), (0x1f4e4, 0x1f4e6), (0x1f4ea, 0x1f4ed),
    (0x1f4f7, 0x1f4f7), (0x1f4f9, 0x1f4fb), (0x1f508, 0x1f508), (0x1f50d, 0x1f50d),
    (0x1f512, 0x1f513), (0x1f550, 0x1f567), (0x1f610, 0x1f610), (0x1f687, 0x1f687),
    (0x1f68d, 0x1f68d), (0x1f691, 0x1f691), (0x1f694, 0x1f694), (0x1f698, 0x1f698),
    (0x1f6ad, 0x1f6ad), (0x1f6b2, 0x1f6b2), (0x1f6b9, 0x1f6ba), (0x1f6bc, 0x1f6bc)]

/-- Pictures of people, whose skin tone can be chosen. -/
def personRanges : List (Nat × Nat) :=
  [(0x261d, 0x261d), (0x26f9, 0x26f9), (0x270a, 0x270d), (0x1f385, 0x1f385), (0x1f3c2, 0x1f3c4),
    (0x1f3c7, 0x1f3c7), (0x1f3ca, 0x1f3cc), (0x1f442, 0x1f443), (0x1f446, 0x1f450),
    (0x1f466, 0x1f478), (0x1f47c, 0x1f47c), (0x1f481, 0x1f483), (0x1f485, 0x1f487),
    (0x1f48f, 0x1f48f), (0x1f491, 0x1f491), (0x1f4aa, 0x1f4aa), (0x1f574, 0x1f575),
    (0x1f57a, 0x1f57a), (0x1f590, 0x1f590), (0x1f595, 0x1f596), (0x1f645, 0x1f647),
    (0x1f64b, 0x1f64f), (0x1f6a3, 0x1f6a3), (0x1f6b4, 0x1f6b6), (0x1f6c0, 0x1f6c0),
    (0x1f6cc, 0x1f6cc), (0x1f90c, 0x1f90c), (0x1f90f, 0x1f90f), (0x1f918, 0x1f91f),
    (0x1f926, 0x1f926), (0x1f930, 0x1f939), (0x1f93c, 0x1f93e), (0x1f977, 0x1f977),
    (0x1f9b5, 0x1f9b6), (0x1f9b8, 0x1f9b9), (0x1f9bb, 0x1f9bb), (0x1f9cd, 0x1f9cf),
    (0x1f9d1, 0x1f9dd), (0x1fac3, 0x1fac5), (0x1faf0, 0x1faf8)]

/-- The invisible character that joins those around it. -/
def joiner : Char := '\u200d'

def isRegionalIndicator (c : Char) : Bool := 0x1f1e6 ≤ c.toNat && c.toNat ≤ 0x1f1ff

def isSkinTone (c : Char) : Bool := 0x1f3fb ≤ c.toNat && c.toNat ≤ 0x1f3ff

def isTagLetter (c : Char) : Bool := 0xe0061 ≤ c.toNat && c.toNat ≤ 0xe007a

def isTagDigit (c : Char) : Bool := 0xe0030 ≤ c.toNat && c.toNat ≤ 0xe0039

def hasTextForm (c : Char) : Bool := inRanges textFormRanges c.toNat

/-- The character has a picture form; two ideographs in squares have one beside a wide text form. -/
def hasPictureForm (c : Char) : Bool :=
  inRanges pictureFormRanges c.toNat || hasTextForm c || c.toNat == 0x1f21a || c.toNat == 0x1f22f

/-- What a picture begins with, seen from the character before it. -/
inductive Picture where
  /-- A whole picture. -/
  | whole
  | skinTone
  /-- So many regional indicators, of which each two make a flag. -/
  | indicators (n : Nat)
  /-- A joiner with a picture after it. -/
  | joined
  /-- The frame of a keycap that is joined to a picture. -/
  | joinedFrame
  /-- So many regional indicators, the last two of which are joined to a picture. -/
  | joinedIndicators (n : Nat)
  /-- The end of a flag's name that is joined to a picture: so many letters after so many digits. -/
  | joinedName (digits letters : Nat)
deriving DecidableEq, Inhabited

namespace Picture

def ofChar? (c : Char) : Option Picture :=
  if isRegionalIndicator c then some (indicators 1)
  else if isSkinTone c then some skinTone
  else if inRanges pictureRanges c.toNat then some whole
  else none

/-- Whether a joiner may stand before the picture. -/
def joins : Picture → Bool
  | whole | skinTone => true
  | indicators n | joinedIndicators n => 2 ≤ n
  | _ => false

/-- Columns that a regional indicator adds before so many others that end in a joined flag. Flags
are formed from the front, so the one that is joined may be left with a single indicator. -/
def joinedIndicatorWidth (n : Nat) : Int := if n = 0 then 1 else if n % 2 = 1 then -1 else 3

/-- The columns that a character adds if it makes one picture with what follows it, and the
picture they make. -/
def merge? (c : Char) : Picture → Option (Int × Picture)
  | whole => none
  | skinTone => if inRanges personRanges c.toNat then some (0, whole) else none
  | indicators n => if isRegionalIndicator c then some (1, indicators (n + 1)) else none
  | joinedIndicators n =>
    if isRegionalIndicator c then some (joinedIndicatorWidth n, joinedIndicators (n + 1)) else none
  | joined =>
    if c == '\u20e3' then some (0, joinedFrame)
    else if c.toNat == 0xe007f then some (0, joinedName 0 0)
    else
      match ofChar? c with
      | some (indicators _) => some (joinedIndicatorWidth 0, joinedIndicators 1)
      | some p => some (0, p)
      | none => none
  | joinedFrame => none
  | joinedName digits letters =>
    if isTagLetter c && digits = 0 && letters < 6 then some (0, joinedName 0 (letters + 1))
    else if isTagDigit c && digits < 3 && letters ≤ 4 then some (0, joinedName (digits + 1) letters)
    else if c.toNat == 0x1f3f4 && (digits = 3 || digits = 0 && 3 ≤ letters) then some (0, whole)
    else none

/-- As `merge?`, with the joiner. -/
def extend? (c : Char) (p : Picture) : Option (Int × Picture) :=
  if c == joiner && p.joins then some (0, joined) else p.merge? c

end Picture
end TreeLowering.Text

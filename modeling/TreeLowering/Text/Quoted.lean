/-! # Quoted text: double-quoted literals with backslash escapes

`encode` writes the body of a literal and `read?` reads one back. A reader also meets escapes
of surrogate code units; a pair stands for one character and an unpaired one for none. -/
namespace TreeLowering.Quoted
set_option autoImplicit false

def hexDigit (n : Nat) : Char := Nat.digitChar n

def hexValue? (c : Char) : Option Nat :=
  if '0' ≤ c ∧ c ≤ '9' then some (c.toNat - '0'.toNat)
  else if 'a' ≤ c ∧ c ≤ 'f' then some (c.toNat - 'a'.toNat + 10)
  else if 'A' ≤ c ∧ c ≤ 'F' then some (c.toNat - 'A'.toNat + 10)
  else none

/-- The short escape letter of a character that has one. -/
def shortEscape? (c : Char) : Option Char :=
  if c = '"' then some '"'
  else if c = '\\' then some '\\'
  else if c = '\x08' then some 'b'
  else if c = '\x0c' then some 'f'
  else if c = '\n' then some 'n'
  else if c = '\r' then some 'r'
  else if c = '\t' then some 't'
  else none

/-- One character inside a literal: a short escape, a four-digit escape for other characters
below the blank, itself otherwise. -/
def encodeChar (c : Char) : List Char :=
  match shortEscape? c with
  | some e => ['\\', e]
  | none =>
    if c.toNat < 32 then ['\\', 'u', '0', '0', hexDigit (c.toNat / 16), hexDigit (c.toNat % 16)]
    else [c]

def encode (cs : List Char) : List Char := cs.flatMap encodeChar

/-- The literal of a text, quotes included. -/
def quoteChars (cs : List Char) : List Char := '"' :: (encode cs ++ ['"'])

def quote (s : String) : String := String.ofList (quoteChars s.toList)

/-- What a literal holds: characters, and code units written as four hexadecimal digits. -/
inductive Piece where
  | char (c : Char)
  | unit (code : Nat)
deriving DecidableEq

/-- The character that a letter after a backslash stands for. -/
def unescape? : Char → Option Char
  | '"' => some '"'
  | '\\' => some '\\'
  | '/' => some '/'
  | 'b' => some '\x08'
  | 'f' => some '\x0c'
  | 'n' => some '\n'
  | 'r' => some '\r'
  | 't' => some '\t'
  | _ => none

def unitOfHex? (a b c d : Char) : Option Nat := do
  pure (((← hexValue? a) * 16 + (← hexValue? b)) * 256 + (← hexValue? c) * 16 + (← hexValue? d))

/-- Reads the pieces of a literal up to and including its closing quote. -/
def readPieces? : List Char → Option (List Piece × List Char)
  | [] => none
  | '"' :: rest => some ([], rest)
  | '\\' :: 'u' :: a :: b :: c :: d :: rest => do
    let code ← unitOfHex? a b c d
    let (pieces, rest) ← readPieces? rest
    pure (.unit code :: pieces, rest)
  | '\\' :: e :: rest => do
    let c ← unescape? e
    let (pieces, rest) ← readPieces? rest
    pure (.char c :: pieces, rest)
  | c :: rest =>
    if c = '\\' ∨ c.toNat < 32 then none
    else do
      let (pieces, rest) ← readPieces? rest
      pure (.char c :: pieces, rest)

def isHighSurrogate (n : Nat) : Bool := 0xD800 ≤ n && n < 0xDC00

def isLowSurrogate (n : Nat) : Bool := 0xDC00 ≤ n && n < 0xE000

/-- The text of a list of pieces, unless a surrogate has no partner. -/
def join? : List Piece → Option (List Char)
  | [] => some []
  | .char c :: rest => (join? rest).map (c :: ·)
  | .unit high :: .unit low :: rest =>
    if isHighSurrogate high then
      if isLowSurrogate low then
        (join? rest).map (Char.ofNat (0x10000 + (high - 0xD800) * 0x400 + (low - 0xDC00)) :: ·)
      else none
    else if isLowSurrogate high then none
    else (join? (.unit low :: rest)).map (Char.ofNat high :: ·)
  | .unit n :: rest =>
    if isHighSurrogate n || isLowSurrogate n then none
    else (join? rest).map (Char.ofNat n :: ·)

/-- Reads a literal whose opening quote has been read: its text, or `none` if a surrogate has no
partner, and what follows it. -/
def read? (cs : List Char) : Option (Option String × List Char) :=
  (readPieces? cs).map fun (pieces, rest) => ((join? pieces).map String.ofList, rest)

end TreeLowering.Quoted

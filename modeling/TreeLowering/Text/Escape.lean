import TreeLowering.Text.Printable

/-! # Text in quotes for people to read

Double quotes, backslashes and characters that cannot be shown are escaped, so that the text between
the quotes can be told apart from what stands around it. -/
namespace TreeLowering.Text
set_option autoImplicit false

/-- The escape of a character by its number. -/
def numberEscape (c : Char) : List Char :=
  ['\\', 'u', '\x7b'] ++ Nat.toDigits 16 c.toNat ++ ['\x7d']

def escapeChar (c : Char) : List Char :=
  match c with
  | '\x00' => ['\\', '0']
  | '\t' => ['\\', 't']
  | '\r' => ['\\', 'r']
  | '\n' => ['\\', 'n']
  | '\\' => ['\\', '\\']
  | '"' => ['\\', '"']
  | c => if isPrintable c then [c] else numberEscape c

/-- The text in double quotes. -/
def inQuotes (s : String) : String := "\"" ++ String.ofList (s.toList.flatMap escapeChar) ++ "\""

end TreeLowering.Text

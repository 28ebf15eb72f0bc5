import TreeLowering.Json.Basic
import TreeLowering.Text.Quoted

/-! # Writing JSON text

`compact` has no blanks; `pretty` indents by two blanks a level and writes empty containers on
one line. -/
namespace TreeLowering.Json
set_option autoImplicit false

def ofNat (n : Nat) : Json := number (Numeral.ofNat n)

def ofString? : Option String → Json
  | some s => string s
  | none => null

def keyChars : Option String → List Char
  | some k => Quoted.quoteChars k.toList
  | none => []

mutual
def compactChars : Json → List Char
  | null => "null".toList
  | bool true => "true".toList
  | bool false => "false".toList
  | number n => n.render
  | string s => Quoted.quoteChars s.toList
  | array items => '[' :: (compactItems items ++ [']'])
  | object members => '\x7b' :: (compactMembers members ++ ['\x7d'])
  | unpaired | broken => []

def compactItems : List Json → List Char
  | [] => []
  | [j] => j.compactChars
  | j :: rest => j.compactChars ++ ',' :: compactItems rest

def compactMembers : List Member → List Char
  | [] => []
  | [.mk k v] => keyChars k ++ ':' :: v.compactChars
  | .mk k v :: rest => keyChars k ++ ':' :: (v.compactChars ++ ',' :: compactMembers rest)
end

/-- A line break and the indentation of a level. -/
def newline (level : Nat) : List Char := '\n' :: List.replicate (2 * level) ' '

mutual
/-- The value at an indentation level, its first line not indented. -/
def prettyChars (level : Nat) : Json → List Char
  | null => "null".toList
  | bool true => "true".toList
  | bool false => "false".toList
  | number n => n.render
  | string s => Quoted.quoteChars s.toList
  | array [] => ['[', ']']
  | array items => '[' :: (prettyItems (level + 1) items ++ newline level ++ [']'])
  | object [] => ['\x7b', '\x7d']
  | object members => '\x7b' :: (prettyMembers (level + 1) members ++ newline level ++ ['\x7d'])
  | unpaired | broken => []

def prettyItems (level : Nat) : List Json → List Char
  | [] => []
  | [j] => newline level ++ j.prettyChars level
  | j :: rest => newline level ++ j.prettyChars level ++ ',' :: prettyItems level rest

def prettyMembers (level : Nat) : List Member → List Char
  | [] => []
  | [.mk k v] => newline level ++ keyChars k ++ ':' :: ' ' :: v.prettyChars level
  | .mk k v :: rest =>
    newline level ++ keyChars k ++ ':' :: ' ' :: (v.prettyChars level ++ ',' :: prettyMembers level rest)
end

def compact (j : Json) : String := String.ofList j.compactChars

def pretty (j : Json) : String := String.ofList (j.prettyChars 0)

end TreeLowering.Json

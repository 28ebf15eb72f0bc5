import TreeLowering.Json.Basic
import TreeLowering.Text.Quoted

/-! # Reading JSON text -/
namespace TreeLowering.Json
set_option autoImplicit false

def isBlank (c : Char) : Bool := c == ' ' || c == '\t' || c == '\r' || c == '\n'

def skipBlanks (cs : List Char) : List Char := cs.dropWhile isBlank

mutual
/-- Reads a value, blanks before it included. Every step but the one into a container's first
item uses up a character, so twice the length is enough fuel. -/
def readValue : Nat → List Char → Json × List Char
  | 0, _ => (broken, [])
  | fuel + 1, cs =>
    match skipBlanks cs with
    | 'n' :: 'u' :: 'l' :: 'l' :: rest => (null, rest)
    | 't' :: 'r' :: 'u' :: 'e' :: rest => (bool true, rest)
    | 'f' :: 'a' :: 'l' :: 's' :: 'e' :: rest => (bool false, rest)
    | '"' :: rest =>
      match Quoted.read? rest with
      | some (some s, rest) => (string s, rest)
      | some (none, rest) => (unpaired, rest)
      | none => (broken, [])
    | '[' :: rest =>
      match skipBlanks rest with
      | ']' :: rest => (array [], rest)
      | rest =>
        let (items, rest) := readItems fuel rest
        (array items, rest)
    | '\x7b' :: rest =>
      match skipBlanks rest with
      | '\x7d' :: rest => (object [], rest)
      | rest =>
        let (members, rest) := readMembers fuel rest
        (object members, rest)
    | cs =>
      match Numeral.read? cs with
      | some (n, rest) => (number n, rest)
      | none => (broken, [])

/-- Reads the items of an array up to and including the closing bracket. -/
def readItems : Nat → List Char → List Json × List Char
  | 0, _ => ([broken], [])
  | fuel + 1, cs =>
    let (item, rest) := readValue fuel cs
    match skipBlanks rest with
    | ',' :: rest =>
      let (items, rest) := readItems fuel rest
      (item :: items, rest)
    | ']' :: rest => ([item], rest)
    | _ => ([item, broken], [])

/-- Reads the members of an object up to and including the closing brace. -/
def readMembers : Nat → List Char → List Member × List Char
  | 0, _ => ([.mk none broken], [])
  | fuel + 1, cs =>
    match skipBlanks cs with
    | '"' :: rest =>
      match Quoted.read? rest with
      | none => ([.mk none broken], [])
      | some (key, rest) =>
        match skipBlanks rest with
        | ':' :: rest =>
          let (value, rest) := readValue fuel rest
          match skipBlanks rest with
          | ',' :: rest =>
            let (members, rest) := readMembers fuel rest
            (.mk key value :: members, rest)
          | '\x7d' :: rest => ([.mk key value], rest)
          | _ => ([.mk key value, .mk none broken], [])
        | _ => ([.mk key broken], [])
    | _ => ([.mk none broken], [])
end

/-- The value at the front of a text, and what follows it. -/
def read (cs : List Char) : Json × List Char := readValue (2 * cs.length + 2) cs

end TreeLowering.Json

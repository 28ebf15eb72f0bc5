import TreeLowering.Json.Decoder

/-! # Operators of the source language -/
namespace TreeLowering
set_option autoImplicit false

inductive BinaryOp where
  | member
  | intDiv
  | mod
  | or
  | and
  | xor
  | add
  | sub
  | mul
  | div
  | eq
  | ne
  | lt
  | le
  | gt
  | ge
  | bitAnd
  | bitOr
  | bitXor
  | shl
  | shr
deriving DecidableEq

namespace BinaryOp

def symbol : BinaryOp → String
  | member => "."
  | intDiv => "div"
  | mod => "mod"
  | or => "||"
  | and => "&&"
  | xor => "^^"
  | add => "+"
  | sub => "-"
  | mul => "*"
  | div => "/"
  | eq => "=="
  | ne => "!="
  | lt => "<"
  | le => "<="
  | gt => ">"
  | ge => ">="
  | bitAnd => "&"
  | bitOr => "|"
  | bitXor => "^"
  | shl => "<<"
  | shr => ">>"

def all : List BinaryOp :=
  [member, intDiv, mod, or, and, xor, add, sub, mul, div, eq, ne, lt, le, gt, ge, bitAnd, bitOr,
    bitXor, shl, shr]

def decoder : Decoder BinaryOp := .choice (all.map fun op => (op.symbol, op))

end BinaryOp

inductive UnaryOp where
  | not
  | minus
  | plus
  | bitNot
deriving DecidableEq

namespace UnaryOp

def symbol : UnaryOp → String
  | not => "!"
  | minus => "-"
  | plus => "+"
  | bitNot => "~"

def all : List UnaryOp := [not, minus, plus, bitNot]

def decoder : Decoder UnaryOp := .choice (all.map fun op => (op.symbol, op))

end UnaryOp
end TreeLowering


namespace Credence

inductive BinaryOp where
  | add | sub | mult | matMult | div | floorDiv | mod | pow | shiftLeft | shiftRight
  | bitOr | bitXor | bitAnd
deriving DecidableEq, Inhabited

namespace BinaryOp

def symbol : BinaryOp → String
  | add => "+"
  | sub => "-"
  | mult => "*"
  | matMult => "@"
  | div => "/"
  | floorDiv => "//"
  | mod => "%"
  | pow => "**"
  | shiftLeft => "<<"
  | shiftRight => ">>"
  | bitOr => "|"
  | bitXor => "^"
  | bitAnd => "&"

def method : BinaryOp → String
  | add => "__add__"
  | sub => "__sub__"
  | mult => "__mul__"
  | matMult => "__matmul__"
  | div => "__truediv__"
  | floorDiv => "__floordiv__"
  | mod => "__mod__"
  | pow => "__pow__"
  | shiftLeft => "__lshift__"
  | shiftRight => "__rshift__"
  | bitOr => "__or__"
  | bitXor => "__xor__"
  | bitAnd => "__and__"

def reflectedMethod (op : BinaryOp) : String :=
  "__r" ++ String.ofList (op.method.toList.drop 2)

def all : List BinaryOp :=
  [add, sub, mult, matMult, div, floorDiv, mod, pow, shiftLeft, shiftRight, bitOr, bitXor, bitAnd]

def ofSymbol? (symbol : String) : Option BinaryOp :=
  all.find? (·.symbol == symbol)

theorem ofSymbol?_symbol (op : BinaryOp) : ofSymbol? op.symbol = some op := by
  cases op <;> decide

end BinaryOp

inductive UnaryOp where
  | not | neg | pos | invert
deriving DecidableEq, Inhabited

inductive BoolOp where
  | and | or
deriving DecidableEq, Inhabited

inductive CompareOp where
  | eq | notEq | less | lessEq | greater | greaterEq | is | isNot | isIn | notIn
deriving DecidableEq, Inhabited

end Credence

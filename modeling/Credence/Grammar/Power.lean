import Credence.Operator
import Credence.Token.Kind

namespace Credence.Grammar

open Token (Kind)

inductive Power where
  | lowest | comma | ternary | logicalOr | logicalAnd | logicalNot | relational
  | bitOr | bitXor | bitAnd | shift | additive | multiplicative | unary | power | call | member
  | primary
deriving DecidableEq, Inhabited

namespace Power

def rank : Power → Nat
  | lowest => 0
  | comma => 1
  | ternary => 2
  | logicalOr => 3
  | logicalAnd => 4
  | logicalNot => 5
  | relational => 6
  | bitOr => 7
  | bitXor => 8
  | bitAnd => 9
  | shift => 10
  | additive => 11
  | multiplicative => 12
  | unary => 13
  | power => 14
  | call => 15
  | member => 16
  | primary => 17

/-- The power with which a token extends the expression on its left. Tokens that can only start an
expression have the highest, so that they are never passed over in silence. -/
def ofKind : Kind → Power
  | .walrus => comma
  | .kwIf => ternary
  | .kwOr => logicalOr
  | .kwAnd => logicalAnd
  | .less | .lessEquals | .greater | .greaterEquals | .equals | .notEquals | .kwIn | .kwIs
  | .kwNot => relational
  | .pipe => bitOr
  | .caret => bitXor
  | .ampersand => bitAnd
  | .shiftLeft | .shiftRight => shift
  | .plus | .dash => additive
  | .star | .slash | .doubleSlash | .percent | .atSign => multiplicative
  | .doubleStar => power
  | .openParen | .openBracket => call
  | .dot => member
  | .number | .identifier | .kwTrue | .kwFalse | .kwNone | .ellipsis | .string | .formatString
  | .bytes | .tilde | .kwAwait | .kwYield | .kwLambda | .openCurly => primary
  | _ => lowest

end Power

def binaryOp? : Kind → Option BinaryOp
  | .plus => some .add
  | .dash => some .sub
  | .star => some .mult
  | .atSign => some .matMult
  | .slash => some .div
  | .doubleSlash => some .floorDiv
  | .percent => some .mod
  | .doubleStar => some .pow
  | .shiftLeft => some .shiftLeft
  | .shiftRight => some .shiftRight
  | .pipe => some .bitOr
  | .caret => some .bitXor
  | .ampersand => some .bitAnd
  | .augmented op => some op
  | _ => none

end Credence.Grammar

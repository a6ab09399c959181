import Credence.Decimal.Nearest
import Credence.Tree.Expr

namespace Credence.Number

/-- The largest value an integer literal keeps; larger ones are cut down to it. -/
def greatest : Nat :=
  0x7FFFFFFFFFFFFFFF

def digitValue (c : Char) : Nat :=
  if c.isDigit then c.toNat - 48 else c.toNat - 87

def inBase (base : Nat) (digits : List Char) : Number :=
  if digits.isEmpty then int greatest
  else int (min (digits.foldl (fun n d => base * n + digitValue d) 0) greatest)

/-- Reads a number literal; bars between digits do not count. -/
def ofLiteral? (text : String) : Option Number :=
  let cs := (text.toList.filter (· != '_')).map Char.toLower
  if cs.getLast? == some 'j' then (Decimal.read? cs.dropLast).map complex
  else
    match cs with
    | '0' :: 'x' :: digits => some (inBase 16 digits)
    | '0' :: 'o' :: digits => some (inBase 8 digits)
    | '0' :: 'b' :: digits => some (inBase 2 digits)
    | _ =>
      if cs.contains '.' || cs.contains 'e' then (Decimal.read? cs).map float
      else if cs.all Char.isDigit then some (inBase 10 cs)
      else none

end Credence.Number

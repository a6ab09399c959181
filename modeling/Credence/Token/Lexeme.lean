import Credence.Text.Letter
import Credence.Token.Kind
import Credence.Token.Literal

namespace Credence.Token

def runLength (p : Char → Bool) (cs : List Char) : Nat :=
  (cs.takeWhile p).length

namespace Numeral

def isDigitOrBar (c : Char) : Bool :=
  c.isDigit || c == '_'

def baseDigit? (mark : Char) : Option (Char → Bool) :=
  if mark == 'x' || mark == 'X' then some fun c => Literal.escape?.isHex c || c == '_'
  else if mark == 'o' || mark == 'O' then some fun c => ('0' ≤ c && c ≤ '7') || c == '_'
  else if mark == 'b' || mark == 'B' then some fun c => c == '0' || c == '1' || c == '_'
  else none

def basedLength? : List Char → Option Nat
  | '0' :: mark :: cs =>
    match baseDigit? mark with
    | none => none
    | some p => if runLength p cs = 0 then none else some (runLength p cs + 2)
  | _ => none

def exponentLength : List Char → Nat
  | [] => 0
  | e :: cs =>
    if e == 'e' || e == 'E' then
      let sign := if cs.head?.any fun c => c == '+' || c == '-' then 1 else 0
      let digits := runLength isDigitOrBar (cs.drop sign)
      if digits = 0 then 0 else digits + sign + 1
    else 0

def tailLength (cs : List Char) : Nat :=
  let e := exponentLength cs
  if (cs.drop e).head?.any fun c => c == 'j' || c == 'J' then e + 1 else e

def wholeLength (cs : List Char) : Nat :=
  if cs.head?.any Char.isDigit then runLength isDigitOrBar cs else 0

def pointedLength? (cs : List Char) : Option Nat :=
  let whole := wholeLength cs
  match cs.drop whole with
  | '.' :: rest =>
    let places := wholeLength rest
    if places = 0 then none
    else some (whole + 1 + places + tailLength (rest.drop places))
  | _ => none

/-- A number that starts with a digit, with at most a bare point after its digits. -/
def plainLength? (cs : List Char) : Option Nat :=
  let whole := wholeLength cs
  if whole = 0 then none
  else
    let point := if (cs.drop whole).head? == some '.' then 1 else 0
    some (whole + point + tailLength (cs.drop (whole + point)))

def length? (cs : List Char) : Option Nat :=
  basedLength? cs <|> pointedLength? cs <|> plainLength? cs

end Numeral

inductive Lexeme where
  | literal (tag : Nat) (triple : Bool)
  | openLiteral
  | word
  | numeral
  | lineEnd
  | trivia
  | mark (kind : Kind)

namespace Lexeme

def isIndentation (c : Char) : Bool :=
  c == ' ' || c == '\t' || c == '\x0c'

def lineEndLength? : List Char → Option Nat
  | '\n' :: _ => some 1
  | '\r' :: '\n' :: _ => some 2
  | _ => none

def literal? (cs : List Char) : Option (Lexeme × Nat) :=
  match Literal.tag? cs with
  | none => none
  | some tag =>
    match Literal.body? (cs.drop tag.length) with
    | some (triple, n) => some (literal tag.length triple, tag.length + n)
    | none => some (openLiteral, 1)

def word? (cs : List Char) : Option (Lexeme × Nat) :=
  if cs.head?.any Text.startsName then some (word, runLength Text.continuesName cs) else none

def trivia? (cs : List Char) : Option (Lexeme × Nat) :=
  match cs with
  | '\\' :: rest => (lineEndLength? rest).map fun n => (trivia, n + 1)
  | '#' :: rest => some (trivia, runLength (· != '\n') rest + 1)
  | c :: rest => if isIndentation c then some (trivia, runLength isIndentation rest + 1) else none
  | [] => none

def mark? (cs : List Char) : Option (Lexeme × Nat) :=
  (Kind.marks.find? fun m => m.1.isPrefixOf cs).map fun m => (mark m.2, m.1.length)

/-- The lexeme at the start of a text and its length. Strings come before words, which may look like
their tags, and numbers before the dot. -/
def ofText? (cs : List Char) : Option (Lexeme × Nat) :=
  literal? cs <|> word? cs <|> (Numeral.length? cs).map (numeral, ·) <|>
    (lineEndLength? cs).map (lineEnd, ·) <|> trivia? cs <|> mark? cs

end Lexeme

end Credence.Token

import Credence.Decimal.Shortest

namespace Credence.Json

def writeChar (c : Char) : List Char :=
  match c with
  | '"' => ['\\', '"']
  | '\\' => ['\\', '\\']
  | '\x08' => ['\\', 'b']
  | '\x0c' => ['\\', 'f']
  | '\n' => ['\\', 'n']
  | '\r' => ['\\', 'r']
  | '\t' => ['\\', 't']
  | c =>
    if c < ' ' then
      let digits := Nat.toDigits 16 c.toNat
      "\\u".toList ++ List.replicate (4 - digits.length) '0' ++ digits
    else [c]

def writeText (text : String) : String :=
  String.ofList ('"' :: text.toList.flatMap writeChar ++ ['"'])

/-- Digits with a point or an exponent: positional from five zeros after the point up to sixteen
digits before it, and with a mark otherwise. -/
def writeDigits (d : Decimal.Digits) : List Char :=
  let digits := Decimal.digitText d.digits
  let place : Int := digits.length + d.exponent
  if -5 < place ∧ place ≤ 16 then
    if 0 ≤ d.exponent then Decimal.positional d ++ ['.', '0'] else Decimal.positional d
  else
    let mantissa := match digits with
      | [only] => [only]
      | first :: rest => first :: '.' :: rest
      | [] => []
    mantissa ++ 'e' :: (toString (place - 1)).toList

def numberLayout : Decimal.Layout where
  write := writeDigits
  zero := "0.0".toList
  nan := "null".toList
  infinity := "null".toList

def writeNumber (x : Float) : String :=
  if x.isFinite then numberLayout.render x else "null"

def writeObject (members : List (String × String)) : String :=
  "\x7b" ++ String.intercalate "," (members.map fun (name, value) => writeText name ++ ":" ++ value)
    ++ "\x7d"

end Credence.Json

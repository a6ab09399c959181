import Credence.Json.Basic

namespace Credence.Json

abbrev Reader (α : Type) := List Char → Option (α × List Char)

def isBlank (c : Char) : Bool :=
  c == ' ' || c == '\n' || c == '\t' || c == '\r'

def skipBlank (cs : List Char) : List Char :=
  cs.dropWhile isBlank

inductive Part where
  | char (c : Char)
  | unit (n : Nat)

def hexDigit? (c : Char) : Option Nat :=
  if c.isDigit then some (c.toNat - 48)
  else if 'a' ≤ c ∧ c ≤ 'f' then some (c.toNat - 87)
  else if 'A' ≤ c ∧ c ≤ 'F' then some (c.toNat - 55)
  else none

def hexUnit? (a b c d : Char) : Option Nat := do
  return 4096 * (← hexDigit? a) + 256 * (← hexDigit? b) + 16 * (← hexDigit? c) + (← hexDigit? d)

def escape? : Char → Option Char
  | '"' => some '"'
  | '\\' => some '\\'
  | '/' => some '/'
  | 'b' => some '\x08'
  | 'f' => some '\x0c'
  | 'n' => some '\n'
  | 'r' => some '\r'
  | 't' => some '\t'
  | _ => none

def readParts : Reader (List Part)
  | '"' :: rest => some ([], rest)
  | '\\' :: 'u' :: a :: b :: c :: d :: rest => do
    let n ← hexUnit? a b c d
    let (parts, rest) ← readParts rest
    return (.unit n :: parts, rest)
  | '\\' :: e :: rest => do
    let c ← escape? e
    let (parts, rest) ← readParts rest
    return (.char c :: parts, rest)
  | c :: rest => do
    if c == '\\' || c < ' ' then none
    let (parts, rest) ← readParts rest
    return (.char c :: parts, rest)
  | [] => none

def isHighSurrogate (n : Nat) : Bool :=
  0xD800 ≤ n && n < 0xDC00

def isLowSurrogate (n : Nat) : Bool :=
  0xDC00 ≤ n && n < 0xE000

/-- The characters of a text, unless half of a surrogate pair stands in it. -/
def joinParts : List Part → Option (List Char)
  | [] => some []
  | .char c :: rest => (joinParts rest).map (c :: ·)
  | .unit high :: .unit low :: rest =>
    if isHighSurrogate high then
      if isLowSurrogate low then
        let c := Char.ofNat (0x10000 + 1024 * (high - 0xD800) + (low - 0xDC00))
        (joinParts rest).map (c :: ·)
      else none
    else if isLowSurrogate high then none
    else (joinParts (.unit low :: rest)).map (Char.ofNat high :: ·)
  | .unit n :: rest =>
    if isHighSurrogate n || isLowSurrogate n then none
    else (joinParts rest).map (Char.ofNat n :: ·)

def readText : Reader (Option String) := fun cs => do
  let (parts, rest) ← readParts cs
  return ((joinParts parts).map String.ofList, rest)

def readDigits : Reader (List Char) := fun cs =>
  let digits := cs.takeWhile Char.isDigit
  if digits.isEmpty then none else some (digits, cs.dropWhile Char.isDigit)

def readExponent : Reader (Option (Bool × List Char))
  | c :: rest => do
    if c != 'e' && c != 'E' then return (none, c :: rest)
    let (negative, rest) := match rest with
      | '+' :: rest => (false, rest)
      | '-' :: rest => (true, rest)
      | _ => (false, rest)
    let (digits, rest) ← readDigits rest
    return (some (negative, digits), rest)
  | [] => some (none, [])

def readNumeral : Reader Numeral := fun cs => do
  let (negative, rest) := match cs with
    | '-' :: rest => (true, rest)
    | _ => (false, cs)
  let (whole, rest) ← readDigits rest
  if whole.head? == some '0' && whole.length != 1 then none
  let (fraction, rest) ← match rest with
    | '.' :: rest => readDigits rest
    | _ => some ([], rest)
  let (exponent, rest) ← readExponent rest
  return ({ negative, whole, fraction, exponent }, rest)

section Values

variable (value : Reader Json)

def readItems : Nat → Reader (List Json)
  | 0, _ => none
  | n + 1, cs => do
    let (item, rest) ← value cs
    match skipBlank rest with
    | ',' :: rest =>
      let (items, rest) ← readItems n rest
      return (item :: items, rest)
    | ']' :: rest => return ([item], rest)
    | _ => none

def readMembers : Nat → Reader (List (Option String × Json))
  | 0, _ => none
  | n + 1, cs =>
    match skipBlank cs with
    | '"' :: rest => do
      let (name, rest) ← readText rest
      match skipBlank rest with
      | ':' :: rest =>
        let (item, rest) ← value rest
        match skipBlank rest with
        | ',' :: rest =>
          let (members, rest) ← readMembers n rest
          return ((name, item) :: members, rest)
        | '}' :: rest => return ([(name, item)], rest)
        | _ => none
      | _ => none
    | _ => none

def readOver (count : Nat) : Reader Json := fun cs =>
  match skipBlank cs with
  | 'n' :: 'u' :: 'l' :: 'l' :: rest => some (null, rest)
  | 't' :: 'r' :: 'u' :: 'e' :: rest => some (bool true, rest)
  | 'f' :: 'a' :: 'l' :: 's' :: 'e' :: rest => some (bool false, rest)
  | '"' :: rest => (readText rest).map fun (text, rest) => (str text, rest)
  | '[' :: rest =>
    match skipBlank rest with
    | ']' :: rest => some (arr [], rest)
    | _ => (readItems value count rest).map fun (items, rest) => (arr items, rest)
  | '{' :: rest =>
    match skipBlank rest with
    | '}' :: rest => some (obj [], rest)
    | _ => (readMembers value count rest).map fun (members, rest) => (obj members, rest)
  | cs => (readNumeral cs).map fun (n, rest) => (number n, rest)

end Values

/-- A value; the fuel bounds how deeply it nests and how many parts it has. -/
def readUpTo : Nat → Reader Json
  | 0, _ => none
  | n + 1, cs => readOver (readUpTo n) n cs

def read? (text : String) : Option Json := do
  let cs := text.toList
  let (value, rest) ← readUpTo (cs.length + 1) cs
  if (skipBlank rest).isEmpty then some value else none

end Credence.Json

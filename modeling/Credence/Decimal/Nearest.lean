import Credence.Decimal.Double

namespace Credence.Decimal

def divNearest (n d : Nat) : Nat :=
  let q := n / d
  let r := n % d
  if 2 * r < d || (2 * r == d && q % 2 == 0) then q else q + 1

def scale (n d : Nat) (k : Int) : Nat × Nat :=
  if 0 ≤ k then (n, d * Nat.pow 2 k.toNat) else (n * Nat.pow 2 (-k).toNat, d)

def log2Ratio (n d : Nat) : Int :=
  let k : Int := n.log2 - d.log2
  let (a, b) := scale n d k
  if b ≤ a then k else k - 1

/-- Bits of the double nearest to the positive fraction `n / d`, a half to the even one. A carry out
of the mantissa goes into the exponent by itself. -/
def bitsOfRatio (n d : Nat) : Nat :=
  let q := max (-1074) (log2Ratio n d - 52)
  let (a, b) := scale n d q
  min ((q + 1074).toNat * leadingOne + divNearest a b) infinityBits

def ofScientific (m : Nat) (e : Int) : Float :=
  if m = 0 then 0.0
  else if 400 < e then Float.ofBits (UInt64.ofNat infinityBits)
  else if e < -400 - m.log2 then 0.0
  else
    let bits :=
      if 0 ≤ e then bitsOfRatio (m * Nat.pow 10 e.toNat) 1
      else bitsOfRatio m (Nat.pow 10 (-e).toNat)
    Float.ofBits (UInt64.ofNat bits)

def isDigit (c : Char) : Bool :=
  c.isDigit

def ofDigits (digits : List Char) : Nat :=
  digits.foldl (fun n d => 10 * n + (d.toNat - 48)) 0

/-- The exponent at the end of a decimal: nothing, or a mark, perhaps a sign, and digits. -/
def exponent? : List Char → Option Int
  | [] => some 0
  | e :: cs =>
    if e != 'e' then none
    else
      let (negative, digits) :=
        match cs with
        | '-' :: ds => (true, ds)
        | '+' :: ds => (false, ds)
        | ds => (false, ds)
      if digits.isEmpty || !digits.all isDigit then none
      else some (if negative then -(ofDigits digits : Int) else ofDigits digits)

/-- Reads a decimal: digits with at most one point among or beside them, then an exponent. -/
def read? (cs : List Char) : Option Float :=
  let whole := cs.takeWhile isDigit
  let rest := cs.dropWhile isDigit
  let (places, rest) :=
    match rest with
    | '.' :: ds => (ds.takeWhile isDigit, ds.dropWhile isDigit)
    | _ => ([], rest)
  if whole.isEmpty && places.isEmpty then none
  else (exponent? rest).map fun e => ofScientific (ofDigits (whole ++ places)) (e - places.length)

end Credence.Decimal

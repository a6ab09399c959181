import Credence.Decimal.Double

namespace Credence.Decimal

structure Binary where
  mantissa : Nat
  exponent : Int

/-- The magnitude of a finite double, from its bits. -/
def Binary.ofBits (bits : Nat) : Binary :=
  let field : Nat := bits / leadingOne % exponentCount
  let fraction := bits % leadingOne
  if field = 0 then ⟨fraction, -1074⟩ else ⟨fraction + leadingOne, (field : Int) - 1075⟩

/-- The numbers that round to a double, in quarters of its last place: bounds on either side and
whether the bounds belong. -/
structure Interval where
  low : Nat
  mid : Nat
  high : Nat
  closed : Bool

/-- Below a power of two the doubles lie twice as close. -/
def Binary.interval (b : Binary) : Interval :=
  let low := if b.mantissa = leadingOne ∧ -1074 < b.exponent then 1 else 2
  ⟨4 * b.mantissa - low, 4 * b.mantissa, 4 * b.mantissa + 2, b.mantissa % 2 = 0⟩

structure Digits where
  digits : Nat
  exponent : Int
deriving DecidableEq

def Digits.trim (d : Digits) : Digits :=
  go (d.digits.log2 + 1) d
where
  go : Nat → Digits → Digits
  | 0, d => d
  | n + 1, d =>
    if d.digits ≠ 0 ∧ d.digits % 10 = 0 then go n ⟨d.digits / 10, d.exponent + 1⟩ else d

def Interval.holds (i : Interval) (point unit : Nat) : Bool :=
  if i.closed then i.low * unit ≤ point && point ≤ i.high * unit
  else i.low * unit < point && point < i.high * unit

def digitCount (n : Nat) : Nat :=
  (Nat.toDigits 10 n).length

/-- Searches the grids of `10 ^ e`, from coarse to fine, for a neighbour of the value that lies in
the interval. The value is `i.mid * num / den`. -/
def searchGrids (i : Interval) (num den : Nat) : Nat → Int → Option Digits
  | 0, _ => none
  | fuel + 1, e =>
    let up := if 0 ≤ e then Nat.pow 10 e.toNat else 1
    let down := if 0 ≤ e then 1 else Nat.pow 10 (-e).toNat
    let unit := num * down
    let step := den * up
    let below := i.mid * unit / step
    let above := below + 1
    let lower := i.holds (below * step) unit && below != 0
    let upper := i.holds (above * step) unit
    let nearer := 2 * (i.mid * unit) < (below + above) * step
    if lower && (!upper || nearer) then some ⟨below, e⟩
    else if upper then some ⟨above, e⟩
    else searchGrids i num den fuel (e - 1)

def shortest (b : Binary) : Digits :=
  let i := b.interval
  let q := b.exponent - 2
  let num := if 0 ≤ q then Nat.pow 2 q.toNat else 1
  let den := if 0 ≤ q then 1 else Nat.pow 2 (-q).toNat
  let whole := i.mid * num / den
  let start : Int :=
    if whole = 0 then -(digitCount (den / (i.mid * num)) : Int) else (digitCount whole : Int) - 1
  ((searchGrids i num den 20 start).getD ⟨0, 0⟩).trim

structure Layout where
  write : Digits → List Char
  zero : List Char
  nan : List Char
  infinity : List Char

def digitText (n : Nat) : List Char :=
  Nat.toDigits 10 n

def zeros (n : Nat) : List Char :=
  List.replicate n '0'

def positional (d : Digits) : List Char :=
  let text := digitText d.digits
  if 0 ≤ d.exponent then text ++ zeros d.exponent.toNat
  else
    let places := (-d.exponent).toNat
    if places < text.length then
      text.take (text.length - places) ++ '.' :: text.drop (text.length - places)
    else '0' :: '.' :: zeros (places - text.length) ++ text

def Layout.render (layout : Layout) (x : Float) : String :=
  let bits := x.toBits.toNat
  let negative := signBit ≤ bits
  let magnitude := bits % signBit
  let sign := if negative then ['-'] else []
  let body :=
    if magnitude = 0 then sign ++ layout.zero
    else if magnitude = infinityBits then sign ++ layout.infinity
    else if infinityBits < magnitude then layout.nan
    else sign ++ layout.write (shortest (Binary.ofBits magnitude))
  String.ofList body

end Credence.Decimal

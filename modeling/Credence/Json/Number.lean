import Credence.Decimal.Nearest
import Credence.Json.Basic

namespace Credence.Numeral

/-- A significand with the power of ten that it is to be scaled by. -/
structure Scaled where
  significand : Nat := 0
  exponent : Int := 0
  full : Bool := false

def greatestWord : Nat :=
  0xFFFFFFFFFFFFFFFF

def digit (c : Char) : Nat :=
  c.toNat - 48

def Scaled.addWhole (s : Scaled) (c : Char) : Scaled :=
  let next := 10 * s.significand + digit c
  if s.full || greatestWord < next then { s with exponent := s.exponent + 1, full := true }
  else { s with significand := next }

def Scaled.addFraction (s : Scaled) (c : Char) : Scaled :=
  let next := 10 * s.significand + digit c
  if s.full || greatestWord < next then { s with full := true }
  else { s with significand := next, exponent := s.exponent - 1 }

def Scaled.ofDigits (whole fraction : List Char) : Scaled :=
  let s := whole.foldl Scaled.addWhole {}
  fraction.foldl Scaled.addFraction { s with full := false }

/-- Scales a double by a power of ten, in steps that are powers themselves; none if it is too large. -/
def scaleBy (x : Float) (exponent : Int) : Option Float :=
  if exponent < -308 then
    if x == 0.0 then some x else scaleBy (x / Decimal.ofScientific 1 308) (exponent + 308)
  else if exponent < 0 then some (x / Decimal.ofScientific 1 (-exponent))
  else if exponent ≤ 308 then
    let y := x * Decimal.ofScientific 1 exponent
    if y.isInf then none else some y
  else if x == 0.0 then some x
  else none
termination_by exponent.natAbs

def clampExponent (e : Int) : Int :=
  max (-0x80000000) (min 0x7FFFFFFF e)

/-- The magnitude of a number; none if it is too large for a double. -/
def magnitude? (n : Numeral) : Option Float :=
  let s := Scaled.ofDigits n.whole n.fraction
  let x := (UInt64.ofNat s.significand).toFloat
  match n.exponent with
  | none => scaleBy x s.exponent
  | some (negative, digits) =>
    let e := Decimal.ofDigits digits
    if 0x80000000 ≤ e then
      if s.significand != 0 && !negative then none else some 0.0
    else scaleBy x (clampExponent (if negative then s.exponent - e else s.exponent + e))

def toFloat? (n : Numeral) : Option Float :=
  n.magnitude?.map fun x => if n.negative then -x else x

end Credence.Numeral

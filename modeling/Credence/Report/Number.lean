import Credence.Decimal.Shortest

namespace Credence

/-- Numbers in messages: positional, the fewest digits that read back, no point in whole ones. -/
def plainNumber : Decimal.Layout where
  write := Decimal.positional
  zero := ['0']
  nan := "NaN".toList
  infinity := "inf".toList

/-- A number rounded to a fraction of `scale`, a half away from zero. -/
def roundTo (scale x : Float) : Float :=
  (x * scale).round / scale

def clampUnit (x : Float) : Float :=
  if x < 0.0 then 0.0 else if x > 1.0 then 1.0 else x

def errorProbability (confidence : Float) : Float :=
  clampUnit (1.0 - confidence)

def lesser (x y : Float) : Float :=
  if x.isNaN then y else if y < x then y else x

end Credence

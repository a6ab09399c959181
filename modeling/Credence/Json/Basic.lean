
namespace Credence

/-- A number as written: its sign, the digits before and after the point, and the exponent with its
sign. -/
structure Numeral where
  negative : Bool
  whole : List Char
  fraction : List Char := []
  exponent : Option (Bool × List Char) := none

/-- A value. A text with half of a surrogate pair is no text, and so are such names. -/
inductive Json where
  | null
  | bool (value : Bool)
  | number (value : Numeral)
  | str (text : Option String)
  | arr (items : List Json)
  | obj (members : List (Option String × Json))
deriving Inhabited

end Credence

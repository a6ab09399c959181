import Credence.Source.Position
import Credence.Token.Kind

namespace Credence

/-- A token with its text; the text of a string literal is its content, escapes resolved. -/
structure Token where
  kind : Token.Kind
  value : String
  span : Span
deriving DecidableEq, Inhabited

end Credence

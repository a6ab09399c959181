import Credence.Grammar.Stmt
import Credence.Token.Scan

namespace Credence

def Module.ofSource (source file : String) : Except Stop Module := do
  let tokens ← (Token.tokenize source file).mapError .fault
  Grammar.parse tokens file

end Credence

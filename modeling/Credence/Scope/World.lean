import Credence.Builtin.Member
import Credence.Scope.Bind

namespace Credence

structure World where
  arena : Arena := {}
  scopes : Scopes := {}

instance : Inhabited World :=
  ⟨{}⟩

def World.withBuiltins : World :=
  { scopes := Builtin.bindings.foldl (fun s entry => s.set entry.1 entry.2 1.0) {} }

end Credence

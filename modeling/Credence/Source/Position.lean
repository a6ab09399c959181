
namespace Credence

structure Position where
  offset : Nat
  line : Nat
  column : Nat
  file : String
deriving DecidableEq, Inhabited

/-- The place of things that no file holds. -/
def Position.nowhere : Position :=
  ⟨0, 0, 0, "<null>"⟩

def Position.shift (p : Position) (n : Nat) : Position :=
  { p with offset := p.offset + n, column := p.column + n }

structure Span where
  start : Position
  stop : Position
deriving DecidableEq, Inhabited

def Span.line (s : Span) : Nat :=
  s.start.line

end Credence

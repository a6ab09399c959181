
namespace Credence.Text

/-- A character lies in a table when one of its closed ranges holds the code point. -/
def inRanges (table : Array (Nat × Nat)) (c : Char) : Bool :=
  table.any fun r => r.1 ≤ c.toNat && c.toNat ≤ r.2

def asciiOr (ascii : Char → Bool) (table : Array (Nat × Nat)) (c : Char) : Bool :=
  if c.toNat < 128 then ascii c else inRanges table c

theorem asciiOr_ascii {ascii : Char → Bool} {table : Array (Nat × Nat)} {c : Char}
    (h : c.toNat < 128) : asciiOr ascii table c = ascii c := by
  simp [asciiOr, h]

end Credence.Text

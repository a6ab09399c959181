import Credence.Text.Blank

namespace Credence

open Text

/-- Lines of a text, each with its line end; only the last may lack one. -/
def linesOf : List Char → List (List Char)
  | [] => []
  | c :: cs =>
    if c = '\n' then [c] :: linesOf cs
    else
      match linesOf cs with
      | [] => [[c]]
      | line :: lines => (c :: line) :: lines

theorem flatten_linesOf (cs : List Char) : (linesOf cs).flatten = cs := by
  induction cs with
  | nil => rfl
  | cons c cs ih =>
    rw [linesOf]
    split
    · simp [ih]
    · cases h : linesOf cs with
      | nil => simp [h] at ih; simp [← ih]
      | cons line lines => simp [h] at ih; simp [← ih]

def chomp (line : List Char) : List Char :=
  match line.reverse with
  | '\n' :: '\r' :: rest => rest.reverse
  | '\n' :: rest => rest.reverse
  | _ => line

structure LineView where
  number : Nat
  text : List Char
  column : Nat

def holdingLine? (offset : Nat) : Nat → Nat → List (List Char) → Option LineView
  | _, _, [] => none
  | number, start, line :: lines =>
    if start ≤ offset ∧ offset < start + byteLength line then
      some ⟨number, line, offset - start⟩
    else holdingLine? offset (number + 1) (start + byteLength line) lines

/-- The line that holds a byte offset. The end of the text counts as the end of the last line, shown
without its line end; an offset beyond it has no line. -/
def lineAt? (source : List Char) (offset : Nat) : Option LineView :=
  if byteLength source < offset then none
  else
    let lines := linesOf source
    match holdingLine? offset 1 0 lines with
    | some view => some view
    | none =>
      let last := (lines.getLast?.map chomp).getD []
      some ⟨max lines.length 1, last, byteLength last⟩

end Credence

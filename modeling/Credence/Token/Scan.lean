import Credence.Fault
import Credence.Token.Basic
import Credence.Token.Lexeme

namespace Credence.Token

open Text

/-- How far a text has been read: bytes, the line, and the byte where that line starts. -/
structure Place where
  offset : Nat := 0
  line : Nat := 1
  lineStart : Nat := 0

namespace Place

def step (p : Place) (c : Char) : Place :=
  let offset := p.offset + c.utf8Size
  if c = '\n' then ⟨offset, p.line + 1, offset⟩ else { p with offset }

def advance (p : Place) (text : List Char) : Place :=
  text.foldl step p

def position (p : Place) (file : String) : Position :=
  ⟨p.offset, p.line, p.offset - p.lineStart, file⟩

@[simp] theorem offset_step (p : Place) (c : Char) :
    (p.step c).offset = p.offset + c.utf8Size := by
  unfold step; split <;> rfl

@[simp] theorem offset_advance (p : Place) (text : List Char) :
    (p.advance text).offset = p.offset + byteLength text := by
  induction text generalizing p with
  | nil => rfl
  | cons c text ih =>
    have h := ih (p.step c)
    simp only [advance, List.foldl_cons, byteLength_cons] at h ⊢
    rw [h, offset_step]
    omega

end Place

/-- The state of a scan: the tokens so far, newest first, the widths of the open blocks, innermost
first, the number of open brackets, and whether a new line starts here. -/
structure Scan where
  place : Place := {}
  tokens : List Token := []
  widths : List Nat := []
  depth : Nat := 0
  fresh : Bool := true

namespace Scan

variable (file : String)

def fault (s : Scan) (cause : Cause) : Fault :=
  ⟨cause, s.place.position file⟩

def push (s : Scan) (kind : Kind) (value : String) (length : Nat) : Scan :=
  let start := s.place.position file
  let depth :=
    if kind.opens then s.depth + 1 else if kind.closes then s.depth - 1 else s.depth
  { s with depth, tokens := ⟨kind, value, ⟨start, start.shift length⟩⟩ :: s.tokens }

def advance (s : Scan) (text : List Char) : Scan :=
  { s with place := s.place.advance text }

def atLineEnd (s : Scan) : Bool :=
  match s.tokens with
  | [] => true
  | token :: _ => token.kind == .newline

/-- Ends a logical line, if one has begun. -/
def endLine (s : Scan) (length : Nat) : Scan :=
  if s.atLineEnd then s else s.push file .newline "\n" length

/-- Width of an indentation: a tab goes to the next multiple of eight, a form feed to zero. -/
def width (blanks : List Char) : Nat :=
  blanks.foldl
    (fun w c => if c == '\t' then (w / 8 + 1) * 8 else if c == '\x0c' then 0 else w + 1) 0

def dedent (s : Scan) : Nat → Scan
  | 0 => s
  | n + 1 => ({ s with widths := s.widths.drop 1 }.push file .dedent "" 0).dedent n

def indentTo (s : Scan) (w : Nat) : Except Fault Scan :=
  if s.widths.headD 0 < w then
    .ok ({ s with widths := w :: s.widths }.push file .indent "" 0)
  else
    let s := s.dedent file (s.widths.takeWhile (w < ·)).length
    if s.widths.headD 0 = w then .ok s else .error (s.fault file (.inconsistentDedent w))

def literal (tag : Nat) (triple : Bool) (text : List Char) : Kind × String :=
  let quotes := if triple then 3 else 1
  let letters := (text.take tag).map Char.toLower
  let content := (text.drop (tag + quotes)).take (text.length - tag - 2 * quotes)
  let value := if letters.contains 'r' then content else Literal.unescape content
  let kind : Kind :=
    if letters.contains 'b' then .bytes
    else if letters.contains 'f' then .formatString
    else .string
  (kind, String.ofList value)

def takeLexeme (s : Scan) (lexeme : Lexeme) (text : List Char) : Except Fault Scan :=
  let length := byteLength text
  match lexeme with
  | .literal tag triple =>
    let (kind, value) := literal tag triple text
    .ok ((s.push file kind value length).advance text)
  | .openLiteral => .error (s.fault file .unterminatedString)
  | .word =>
    let word := String.ofList text
    .ok ((s.push file (Kind.ofWord word) word length).advance text)
  | .numeral => .ok ((s.push file .number (String.ofList text) length).advance text)
  | .lineEnd =>
    if s.depth = 0 then .ok ({ s.endLine file length with fresh := true }.advance text)
    else .ok (s.advance text)
  | .trivia => .ok (s.advance text)
  | .mark kind => .ok ((s.push file kind (String.ofList text) length).advance text)

/-- A blank line has nothing but indentation before its end or a comment. -/
def isBlankLine (cs : List Char) : Bool :=
  match cs.dropWhile Lexeme.isIndentation with
  | [] => true
  | c :: _ => c == '\n' || c == '\r' || c == '#'

def run (s : Scan) (cs : List Char) : Except Fault Scan :=
  match cs with
  | [] => .ok s
  | c :: cs =>
    if _h : s.fresh then
      if isBlankLine (c :: cs) then
        let n := runLength (· != '\n') (c :: cs)
        run (s.advance (c :: cs.take n)) (cs.drop n)
      else
        let n := runLength Lexeme.isIndentation (c :: cs)
        let blanks := (c :: cs).take n
        match (s.advance blanks).indentTo file (width blanks) with
        | .error fault => .error fault
        | .ok s => run { s with fresh := false } ((c :: cs).drop n)
    else
      match Lexeme.ofText? (c :: cs) with
      | none => .error (s.fault file (.unrecognisedToken (String.singleton c)))
      | some (lexeme, n) =>
        match s.takeLexeme file lexeme (c :: cs.take (n - 1)) with
        | .error fault => .error fault
        | .ok s => run s (cs.drop (n - 1))
termination_by 2 * cs.length + (if s.fresh then 1 else 0)
decreasing_by
  · simp only [List.length_cons, List.length_drop, _h, if_true]
    split <;> omega
  · simp only [List.length_cons, List.length_drop, _h, if_true, if_false]
    omega
  · simp only [List.length_cons, List.length_drop, _h, Bool.false_eq_true, if_false]
    split <;> omega

def finish (s : Scan) : List Token :=
  let s := s.endLine file 0
  let s := s.dedent file s.widths.length
  (s.push file .eof "EOF" 0).tokens.reverse

end Scan

def tokenize (source file : String) : Except Fault (List Token) :=
  (Scan.run file {} source.toList).map (Scan.finish file)

end Credence.Token

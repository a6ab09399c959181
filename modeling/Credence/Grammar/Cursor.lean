import Credence.Fault
import Credence.Token.Basic
import Credence.Tree.Stmt

namespace Credence.Grammar

open Token (Kind)

/-- A place in a list of tokens. The last token is never passed. -/
structure Cursor where
  current : Token
  later : List Token
  /-- End of the token passed last. -/
  passed : Option Position := none
  nextId : Nat := 1

namespace Cursor

def next (c : Cursor) : Cursor :=
  match c.later with
  | [] => c
  | t :: ts => { c with current := t, later := ts, passed := some c.current.span.stop }

def kind (c : Cursor) : Kind :=
  c.current.kind

def nextKind (c : Cursor) : Kind :=
  (c.later.headD c.current).kind

def start (c : Cursor) : Position :=
  c.current.span.start

def spanFrom (c : Cursor) (start : Position) : Span :=
  ⟨start, c.passed.getD start⟩

/-- More steps than any loop over the tokens that are left can take. -/
def budget (c : Cursor) : Nat :=
  c.later.length + 2

end Cursor

abbrev Parser (α : Type) :=
  StateT Cursor (Except Stop) α

section Steps

variable {α : Type}

def fail (cause : Cause) (position : Position) : Parser α :=
  throw (.fault ⟨cause, position⟩)

def unexpected (detail : String) : Parser α := do
  let c ← get
  fail (.unexpectedTokenDetailed c.current.value detail) c.start

def advance : Parser Token := do
  let c ← get
  set c.next
  return c.current

def kind : Parser Kind := do
  return (← get).kind

def start : Parser Position := do
  return (← get).start

def at? (k : Kind) : Parser Bool := do
  return (← kind) == k

def eat (k : Kind) : Parser Bool := do
  if ← at? k then
    let _ ← advance
    return true
  else
    return false

def expectOr (k : Kind) (detail : String) : Parser Token := do
  if ← at? k then advance else unexpected detail

def expect (k : Kind) : Parser Token :=
  expectOr k ("expected " ++ k.name)

def freshId : Parser Nat := do
  let c ← get
  set { c with nextId := c.nextId + 1 }
  return c.nextId

def mkExpr (form : ExprForm Expr) (span : Span) : Parser Expr := do
  return ⟨← freshId, form, span⟩

def mkStmt (form : StmtForm Stmt) (span : Span) : Parser Stmt := do
  return ⟨← freshId, form, span⟩

def exprFrom (start : Position) (form : ExprForm Expr) : Parser Expr := do
  mkExpr form ((← get).spanFrom start)

def stmtFrom (start : Position) (form : StmtForm Stmt) : Parser Stmt := do
  mkStmt form ((← get).spanFrom start)

/-- Collects the results of a step until it gives none. -/
def collectUpTo (step : Parser (Option α)) : Nat → Parser (List α)
  | 0 => throw .exhausted
  | n + 1 => do
    match ← step with
    | none => return []
    | some a => return a :: (← collectUpTo step n)

def collect (step : Parser (Option α)) : Parser (List α) := do
  collectUpTo step (← get).budget

/-- Items with commas between them, up to a place where no item may start or no comma follows. -/
def commaListUpTo (done : Parser Bool) (item : Parser α) : Nat → Parser (List α)
  | 0 => throw .exhausted
  | n + 1 => do
    if ← done then return []
    let a ← item
    if ← eat .comma then return a :: (← commaListUpTo done item n)
    return [a]

def commaList (done : Parser Bool) (item : Parser α) : Parser (List α) := do
  commaListUpTo done item (← get).budget

def moreItems (done : Parser Bool) (item : Parser α) : Parser (List α) := do
  if ← eat .comma then commaList done item else return []

end Steps

end Credence.Grammar

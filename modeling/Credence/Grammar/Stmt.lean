import Credence.Grammar.Expr

namespace Credence.Grammar

open Token (Kind)

section Simple

variable (sub : Sub)

def assigned : Parser Expr := do
  if ← at? .kwYield then sub .lowest else exprList sub

def assignedChain : Nat → Parser (List Expr)
  | 0 => throw .exhausted
  | n + 1 => do
    let _ ← advance
    let value ← assigned sub
    if ← at? .assignment then return value :: (← assignedChain n)
    return [value]

def expressionStmt : Parser Stmt := do
  let place ← start
  let first ← exprList sub
  let form : StmtForm Stmt ←
    match ← kind with
    | .colon => do
      let _ ← advance
      let ascription ← sub .lowest
      let value ← if ← eat .assignment then pure (some (← assigned sub)) else pure none
      pure (.ascribe first ascription value)
    | .assignment => do
      let values ← assignedChain sub (← get).budget
      pure (.assign (first :: values.dropLast) (values.getLastD first))
    | .augmented op => do
      let _ ← advance
      pure (.augAssign first op (← assigned sub))
    | _ => pure (.expr first)
  stmtFrom place form

def atStmtEnd : Parser Bool := do
  match ← kind with
  | .newline | .semicolon | .eof => return true
  | _ => return false

def returnStmt : Parser Stmt := do
  let token ← advance
  let value ← if ← atStmtEnd then pure none else pure (some (← exprList sub))
  stmtFrom token.span.start (.ret value)

def wordStmt (form : StmtForm Stmt) : Parser Stmt := do
  let token ← advance
  mkStmt form token.span

def dottedName : Parser String := do
  let first ← expect .identifier
  let more ← collect do
    if ← eat .dot then return some (← expect .identifier).value else return none
  return ".".intercalate (first.value :: more)

def aliasOf (name : Parser String) : Parser Alias := do
  let name ← name
  let asname ← if ← eat .kwAs then pure (some (← expect .identifier).value) else pure none
  return ⟨name, asname⟩

def identifier : Parser String := do
  return (← expect .identifier).value

def importStmt : Parser Stmt := do
  let token ← advance
  let names ← commaList (pure false) (aliasOf dottedName)
  stmtFrom token.span.start (.importModules names)

def importLevel : Parser Nat := do
  let dots ← collect do
    match ← kind with
    | .dot => do
      let _ ← advance
      return some 1
    | .ellipsis => do
      let _ ← advance
      return some 3
    | _ => return none
  return dots.foldl (· + ·) 0

def importedNames : Parser (List Alias) := do
  if ← eat .star then return [⟨"*", none⟩]
  if ← eat .openParen then
    let names ← commaList (at? .closeParen) (aliasOf identifier)
    let _ ← expect .closeParen
    return names
  commaList (pure false) (aliasOf identifier)

def importFromStmt : Parser Stmt := do
  let token ← advance
  let level ← importLevel
  let module ← if ← at? .identifier then dottedName else pure ""
  let _ ← expect .kwImport
  let names ← importedNames
  stmtFrom token.span.start (.importFrom module names level)

def scopeStmt (form : List String → StmtForm Stmt) : Parser Stmt := do
  let token ← advance
  let names ← commaList (pure false) identifier
  stmtFrom token.span.start (form names)

/-- The elements of a tuple are deleted one by one. -/
def deleteStmt : Parser Stmt := do
  let token ← advance
  let value ← exprList sub
  let targets :=
    match value.form with
    | .tuple elts => elts
    | _ => [value]
  stmtFrom token.span.start (.delete targets)

def assertStmt : Parser Stmt := do
  let token ← advance
  let test ← sub .lowest
  let msg ← if ← eat .comma then pure (some (← sub .lowest)) else pure none
  stmtFrom token.span.start (.assert test msg)

def raiseStmt : Parser Stmt := do
  let token ← advance
  if ← atStmtEnd then return ← stmtFrom token.span.start (.raise none none)
  let exc ← sub .lowest
  let cause ← if ← eat .kwFrom then pure (some (← sub .lowest)) else pure none
  stmtFrom token.span.start (.raise (some exc) cause)

def simpleStmt : Parser Stmt := do
  match ← kind with
  | .kwReturn => returnStmt sub
  | .kwPass => wordStmt .pass
  | .kwBreak => wordStmt .brk
  | .kwContinue => wordStmt .cont
  | .kwImport => importStmt
  | .kwFrom => importFromStmt
  | .kwGlobal => scopeStmt .globalNames
  | .kwNonlocal => scopeStmt .nonlocalNames
  | .kwDel => deleteStmt sub
  | .kwAssert => assertStmt sub
  | .kwRaise => raiseStmt sub
  | _ => expressionStmt sub

def simpleLine : Parser (List Stmt) := do
  let first ← simpleStmt sub
  let more ← collect do
    if ← eat .semicolon then
      match ← kind with
      | .newline | .eof => return none
      | _ => return some (← simpleStmt sub)
    else
      return none
  if ← eat .newline then return first :: more
  if ← at? .eof then return first :: more
  unexpected "expected end of line"

end Simple

section Compound

variable (sub : Sub) (line : Parser (List Stmt))

/-- The block after a colon: the rest of the line, or an indented block. -/
def block : Parser (List Stmt) := do
  let _ ← expect .colon
  if ← eat .newline then
    let _ ← expectOr .indent "expected an indented block"
    let lines ← collect do
      match ← kind with
      | .dedent | .eof => return none
      | _ => return some (← line)
    let _ ← eat .dedent
    return lines.flatten
  else
    simpleLine sub

def elseBlock : Parser (List Stmt) := do
  if ← eat .kwElse then block sub line else return []

def ifStmt : Nat → Parser Stmt
  | 0 => throw .exhausted
  | n + 1 => do
    let token ← advance
    let test ← sub .lowest
    let body ← block sub line
    let orelse ← if ← at? .kwElif then pure [← ifStmt n] else elseBlock sub line
    stmtFrom token.span.start (.ifElse test body orelse)

def whileStmt : Parser Stmt := do
  let token ← advance
  let test ← sub .lowest
  let body ← block sub line
  let orelse ← elseBlock sub line
  stmtFrom token.span.start (.whileLoop test body orelse)

def forStmt (isAsync : Bool) : Parser Stmt := do
  let token ← expect .kwFor
  let target ← targetList sub
  let _ ← expect .kwIn
  let iter ← exprList sub
  let body ← block sub line
  let orelse ← elseBlock sub line
  stmtFrom token.span.start (.forLoop target iter body orelse isAsync)

def handlerHead : Parser (Option Expr × Option String) := do
  if ← at? .colon then return (none, none)
  let type ← sub .lowest
  let name ← if ← eat .kwAs then pure (some (← identifier)) else pure none
  return (some type, name)

def handler : Parser (Handler Stmt) := do
  let token ← advance
  let _ ← eat .star
  let (type, name) ← handlerHead sub
  let body ← block sub line
  return ⟨type, name, body, (← get).spanFrom token.span.start⟩

def tryStmt : Parser Stmt := do
  let token ← advance
  let body ← block sub line
  let handlers ← collect do
    if ← at? .kwExcept then return some (← handler sub line) else return none
  let orelse ← elseBlock sub line
  let finalbody ← if ← eat .kwFinally then block sub line else pure []
  if handlers.isEmpty && finalbody.isEmpty then unexpected "expected `except` or `finally`"
  else stmtFrom token.span.start (.tryExcept body handlers orelse finalbody)

def withItem : Parser WithItem := do
  let context ← sub .lowest
  let vars ← if ← eat .kwAs then pure (some (← sub .relational)) else pure none
  return ⟨context, vars⟩

def withStmt (isAsync : Bool) : Parser Stmt := do
  let token ← expect .kwWith
  let items ← commaList (pure false) (withItem sub)
  let body ← block sub line
  stmtFrom token.span.start (.withItems items body isAsync)

def functionStmt (decorators : List Expr) (isAsync : Bool) : Parser Stmt := do
  let token ← expect .kwDef
  let name ← identifier
  let _ ← expect .openParen
  let params ← parameters sub .closeParen true
  let _ ← expect .closeParen
  let returns ← if ← eat .arrow then pure (some (← sub .lowest)) else pure none
  let body ← block sub line
  let span := (← get).spanFrom token.span.start
  mkStmt (.functionDef ⟨name, params, body, returns, decorators, isAsync, span⟩) span

def classStmt (decorators : List Expr) : Parser Stmt := do
  let token ← expect .kwClass
  let name ← identifier
  let (bases, keywords) ← if ← eat .openParen then arguments sub else pure ([], [])
  let body ← block sub line
  let span := (← get).spanFrom token.span.start
  mkStmt (.classDef ⟨name, bases, keywords, body, decorators, span⟩) span

def decoratedStmt : Parser Stmt := do
  let decorators ← collect do
    if ← eat .atSign then
      let decorator ← sub .lowest
      let _ ← expect .newline
      return some decorator
    else
      return none
  match ← kind with
  | .kwDef => functionStmt sub line decorators false
  | .kwAsync => do
    let _ ← advance
    functionStmt sub line decorators true
  | .kwClass => classStmt sub line decorators
  | _ => unexpected "expected `def` or `class` after decorator"

def asyncStmt : Parser Stmt := do
  let _ ← advance
  match ← kind with
  | .kwDef => functionStmt sub line [] true
  | .kwFor => forStmt sub line true
  | .kwWith => withStmt sub line true
  | _ => unexpected "expected `def`, `for` or `with` after `async`"

/-- A logical line over the lines inside it: one statement with blocks, or simple statements. -/
def lineOver : Parser (List Stmt) := do
  match ← kind with
  | .kwIf => return [← ifStmt sub line (← get).budget]
  | .kwWhile => return [← whileStmt sub line]
  | .kwFor => return [← forStmt sub line false]
  | .kwTry => return [← tryStmt sub line]
  | .kwWith => return [← withStmt sub line false]
  | .kwDef => return [← functionStmt sub line [] false]
  | .kwClass => return [← classStmt sub line []]
  | .atSign => return [← decoratedStmt sub line]
  | .kwAsync => return [← asyncStmt sub line]
  | _ => simpleLine sub

end Compound

/-- A logical line; the fuel bounds how deeply blocks nest in it. -/
def line (sub : Sub) : Nat → Parser (List Stmt)
  | 0 => throw .exhausted
  | n + 1 => lineOver sub (line sub n)

def moduleBody : Parser (List Stmt) := do
  let n := (← get).budget
  let lines ← collect do
    let c ← get
    if c.later.isEmpty || c.kind == .eof then return none
    else if ← eat .newline then return some []
    else return some (← line (expression n) n)
  return lines.flatten

/-- Tokens with an end mark at the end, as a cursor at the first. -/
def Cursor.ofTokens (tokens : List Token) (file : String) : Cursor :=
  let mark (p : Position) : Token := ⟨.eof, "EOF", ⟨p, p⟩⟩
  match tokens, tokens.getLast? with
  | t :: ts, some last =>
    if last.kind == .eof then { current := t, later := ts }
    else { current := t, later := ts ++ [mark last.span.stop] }
  | _, _ => { current := mark ⟨0, 1, 0, file⟩, later := [] }

def parse (tokens : List Token) (file : String) : Except Stop Module := do
  let (body, c) ← moduleBody.run (Cursor.ofTokens tokens file)
  return ⟨body, file, ⟨⟨0, 1, 0, file⟩, c.start⟩⟩

end Credence.Grammar

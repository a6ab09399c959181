import Credence.Grammar.Cursor
import Credence.Grammar.Power
import Credence.Tree.Numeral

namespace Credence.Grammar

open Token (Kind)

/-- Reads an expression that binds more tightly than a power. -/
abbrev Sub := Power → Parser Expr

variable (sub : Sub)

def exprList : Parser Expr := do
  let place ← start
  let first ← sub .lowest
  if ← at? .comma then
    let more ← moreItems (return (← kind).endsExpression) (sub .lowest)
    exprFrom place (.tuple (first :: more))
  else
    return first

def targetList : Parser Expr := do
  let place ← start
  let first ← sub .relational
  if ← at? .comma then
    let more ← moreItems (at? .kwIn) (sub .relational)
    exprFrom place (.tuple (first :: more))
  else
    return first

def primary : Parser Expr := do
  let token := (← get).current
  let form : ExprForm Expr ←
    match token.kind with
    | .number =>
      match Number.ofLiteral? token.value with
      | some number => pure (.number number)
      | none => fail (.malformedNumber token.value) token.span.start
    | .identifier => pure (.name token.value)
    | .kwTrue => pure (.bool true)
    | .kwFalse => pure (.bool false)
    | .kwNone => pure .noneLiteral
    | .ellipsis => pure .ellipsis
    | _ => unexpected "expected a literal or name"
  let _ ← advance
  mkExpr form token.span

def isStringKind : Kind → Bool
  | .string | .formatString | .bytes => true
  | _ => false

/-- Adjacent string literals are one. The first decides on bytes, any on formatting. -/
def stringLiteral : Parser Expr := do
  let place ← start
  let first ← kind
  let parts ← collect do
    if isStringKind (← kind) then return some (← advance) else return none
  let value := String.join (parts.map (·.value))
  let form : ExprForm Expr :=
    if first == .bytes then .bytes value
    else if parts.any (·.kind == .formatString) then .formatStr value
    else .str value
  exprFrom place form

def exprAcross (left right : Expr) (form : ExprForm Expr) : Parser Expr :=
  mkExpr form ⟨left.span.start, right.span.stop⟩

def binary (left : Expr) (p : Power) : Parser Expr := do
  let token ← advance
  match binaryOp? token.kind with
  | none => unexpected "expected a binary operator"
  | some op =>
    let right ← sub p
    exprAcross left right (.binOp left op right)

/-- A power is right associative, and binds more tightly than a sign on its left. -/
def power (left : Expr) : Parser Expr := do
  let _ ← advance
  let right ← sub .unary
  exprAcross left right (.binOp left .pow right)

/-- Chains of one connective become one node. -/
def boolean (left : Expr) (p : Power) : Parser Expr := do
  let token ← advance
  let op := if token.kind == .kwAnd then BoolOp.and else .or
  let right ← sub p
  let values :=
    match left.form with
    | .boolOp leftOp values => if leftOp = op then values ++ [right] else [left, right]
    | _ => [left, right]
  exprAcross left right (.boolOp op values)

/-- Passes a comparison operator, which may be two tokens. -/
def compareOp? : Parser (Option CompareOp) := do
  let next := (← get).nextKind
  let one (op : CompareOp) : Parser (Option CompareOp) := do
    let _ ← advance
    return some op
  let two (op : CompareOp) : Parser (Option CompareOp) := do
    let _ ← advance
    one op
  match ← kind with
  | .less => one .less
  | .lessEquals => one .lessEq
  | .greater => one .greater
  | .greaterEquals => one .greaterEq
  | .equals => one .eq
  | .notEquals => one .notEq
  | .kwIn => one .isIn
  | .kwIs => if next == .kwNot then two .isNot else one .is
  | .kwNot => if next == .kwIn then two .notIn else return none
  | _ => return none

def comparison (left : Expr) : Parser Expr := do
  let rest ← collect do
    match ← compareOp? with
    | none => return none
    | some op => return some (op, ← sub .relational)
  if rest.isEmpty then unexpected "expected a comparison operator"
  else exprFrom left.span.start (.compare left rest)

def signed : Parser Expr := do
  let token ← advance
  let op :=
    match token.kind with
    | .dash => UnaryOp.neg
    | .plus => .pos
    | _ => .invert
  let operand ← sub .unary
  mkExpr (.unaryOp op operand) ⟨token.span.start, operand.span.stop⟩

def negation : Parser Expr := do
  let token ← advance
  let operand ← sub .logicalNot
  exprFrom token.span.start (.unaryOp .not operand)

def starred : Parser Expr := do
  let token ← advance
  let value ← sub .bitOr
  exprFrom token.span.start (.starred value)

def awaiting : Parser Expr := do
  let token ← advance
  let value ← sub .power
  exprFrom token.span.start (.await value)

def yielding : Parser Expr := do
  let token ← advance
  let form : ExprForm Expr ←
    if ← eat .kwFrom then pure (.yieldFrom (← sub .lowest))
    else if (← kind).endsExpression then pure (.yield none)
    else pure (.yield (some (← exprList sub)))
  exprFrom token.span.start form

inductive ParamEntry where
  | slash
  | mapping (param : Param Expr)
  | star (param : Option (Param Expr))
  | plain (param : Param Expr) (default : Option Expr)

def param (annotated : Bool) : Parser (Param Expr) := do
  let token ← expect .identifier
  let ascription ←
    if annotated then
      if ← eat .colon then pure (some (← sub .lowest)) else pure none
    else pure none
  return ⟨token.value, ascription, token.span⟩

def paramEntry (annotated : Bool) : Parser ParamEntry := do
  if ← eat .slash then return .slash
  if ← eat .doubleStar then return .mapping (← param sub annotated)
  if ← eat .star then
    if ← at? .identifier then return .star (some (← param sub annotated))
    return .star none
  let p ← param sub annotated
  if ← eat .assignment then return .plain p (some (← sub .lowest))
  return .plain p none

/-- Adds an entry; after a star, plain parameters are keyword-only. -/
def addEntry : Params Expr × Bool → ParamEntry → Params Expr × Bool
  | state, .slash => state
  | (ps, kw), .mapping p => ({ ps with kwarg := some p }, kw)
  | (ps, _), .star p => ({ ps with vararg := p <|> ps.vararg }, true)
  | (ps, true), .plain p default =>
    ({ ps with kwonly := ps.kwonly ++ [p], kwDefaults := ps.kwDefaults ++ [default] }, true)
  | (ps, false), .plain p default =>
    ({ ps with args := ps.args ++ [p], defaults := ps.defaults ++ default.toList }, false)

def parameters (close : Kind) (annotated : Bool) : Parser (Params Expr) := do
  let entries ← commaList (at? close) (paramEntry sub annotated)
  return (entries.foldl addEntry ({}, false)).1

def lambda : Parser Expr := do
  let token ← advance
  let params ← parameters sub .colon false
  let _ ← expect .colon
  let body ← sub .lowest
  exprFrom token.span.start (.lambda params body)

def ternary (left : Expr) (p : Power) : Parser Expr := do
  let _ ← advance
  let test ← sub p
  let _ ← expect .kwElse
  let orelse ← sub .comma
  exprAcross left orelse (.ifExp test left orelse)

def walrus (left : Expr) : Parser Expr := do
  let _ ← advance
  let value ← sub .comma
  exprAcross left value (.named left value)

def atAsyncFor : Parser Bool := do
  let c ← get
  return c.kind == .kwAsync && c.nextKind == .kwFor

def startsClause : Parser Bool := do
  if ← at? .kwFor then return true
  atAsyncFor

def clause (isAsync : Bool) : Parser (Clause Expr) := do
  let target ← targetList sub
  let _ ← expect .kwIn
  let iter ← sub .ternary
  let conditions ← collect do
    if ← eat .kwIf then return some (← sub .ternary) else return none
  return ⟨target, iter, conditions, isAsync⟩

def nextClause? : Parser (Option (Clause Expr)) := do
  let isAsync ← atAsyncFor
  if isAsync then
    let _ ← advance
  if ← eat .kwFor then return some (← clause sub isAsync) else return none

def clauses : Parser (List (Clause Expr)) :=
  collect (nextClause? sub)

def moreElements (close : Kind) : Parser (List Expr) :=
  moreItems (at? close) (sub .lowest)

def grouping : Parser Expr := do
  let place := (← advance).span.start
  if ← eat .closeParen then return ← exprFrom place (.tuple [])
  let first ← sub .lowest
  if ← startsClause then
    let gens ← clauses sub
    let _ ← expect .closeParen
    exprFrom place (.generator first gens)
  else if ← at? .comma then
    let more ← moreElements sub .closeParen
    let _ ← expect .closeParen
    exprFrom place (.tuple (first :: more))
  else
    let _ ← expect .closeParen
    return first

def listDisplay : Parser Expr := do
  let place := (← advance).span.start
  if ← eat .closeBracket then return ← exprFrom place (.list [])
  let first ← sub .lowest
  let form : ExprForm Expr ←
    if ← startsClause then pure (.listComp first (← clauses sub))
    else pure (.list (first :: (← moreElements sub .closeBracket)))
  let _ ← expect .closeBracket
  exprFrom place form

def dictItem : Parser (Option Expr × Expr) := do
  if ← eat .doubleStar then return (none, ← sub .bitOr)
  let key ← sub .lowest
  let _ ← expect .colon
  return (some key, ← sub .lowest)

/-- The rest of a dict display after its first item. -/
def dictRest (place : Position) (item : Option Expr × Expr) : Parser Expr := do
  let more ← moreItems (at? .closeCurly) (dictItem sub)
  let _ ← expect .closeCurly
  exprFrom place (.dict (item :: more))

def curlyDisplay : Parser Expr := do
  let place := (← advance).span.start
  if ← eat .closeCurly then return ← exprFrom place (.dict [])
  if ← eat .doubleStar then return ← dictRest sub place (none, ← sub .bitOr)
  let first ← sub .lowest
  if ← eat .colon then
    let value ← sub .lowest
    if ← startsClause then
      let gens ← clauses sub
      let _ ← expect .closeCurly
      exprFrom place (.dictComp first value gens)
    else
      dictRest sub place (some first, value)
  else
    let form : ExprForm Expr ←
      if ← startsClause then pure (.setComp first (← clauses sub))
      else pure (.set (first :: (← moreElements sub .closeCurly)))
    let _ ← expect .closeCurly
    exprFrom place form

def argument : Parser (Expr ⊕ Keyword Expr) := do
  if ← eat .doubleStar then return .inr ⟨none, ← sub .lowest⟩
  let c ← get
  if c.kind == .identifier && c.nextKind == .assignment then
    let name ← advance
    let _ ← advance
    return .inr ⟨some name.value, ← sub .lowest⟩
  let place ← start
  let arg ← sub .lowest
  if ← startsClause then
    let gens ← clauses sub
    return .inl (← exprFrom place (.generator arg gens))
  return .inl arg

def arguments : Parser (List Expr × List (Keyword Expr)) := do
  let items ← commaList (at? .closeParen) (argument sub)
  let _ ← expect .closeParen
  return (items.filterMap Sum.getLeft?, items.filterMap Sum.getRight?)

def call (left : Expr) : Parser Expr := do
  let _ ← advance
  let (args, keywords) ← arguments sub
  exprFrom left.span.start (.call left args keywords)

def sliceBound : Parser (Option Expr) := do
  match ← kind with
  | .colon | .comma | .closeBracket => return none
  | _ => return some (← sub .lowest)

def sliceFrom (place : Position) (lower : Option Expr) : Parser Expr := do
  let _ ← expect .colon
  let upper ← sliceBound sub
  let step ← if ← eat .colon then sliceBound sub else pure none
  exprFrom place (.slice lower upper step)

def sliceItem : Parser Expr := do
  let place ← start
  if ← at? .colon then
    sliceFrom sub place none
  else
    let e ← sub .lowest
    if ← at? .colon then sliceFrom sub place (some e) else return e

def subscript (left : Expr) : Parser Expr := do
  let _ ← advance
  let place ← start
  let first ← sliceItem sub
  let index ←
    if ← at? .comma then
      let more ← moreItems (at? .closeBracket) (sliceItem sub)
      exprFrom place (.tuple (first :: more))
    else pure first
  let _ ← expect .closeBracket
  exprFrom left.span.start (.subscript left index)

def member (left : Expr) : Parser Expr := do
  let _ ← advance
  let name ← expectOr .identifier "expected attribute name after `.`"
  exprFrom left.span.start (.member left name.value)

def operand : Parser Expr := do
  match ← kind with
  | .number | .identifier | .kwTrue | .kwFalse | .kwNone | .ellipsis => primary
  | .string | .formatString | .bytes => stringLiteral
  | .dash | .plus | .tilde => signed sub
  | .kwNot => negation sub
  | .star => starred sub
  | .kwAwait => awaiting sub
  | .kwYield => yielding sub
  | .kwLambda => lambda sub
  | .openParen => grouping sub
  | .openBracket => listDisplay sub
  | .openCurly => curlyDisplay sub
  | _ => unexpected "expected an expression"

def extend (left : Expr) (p : Power) : Parser Expr := do
  let token := (← get).current
  match token.kind with
  | .walrus => walrus sub left
  | .kwIf => ternary sub left p
  | .kwOr | .kwAnd => boolean sub left p
  | .less | .lessEquals | .greater | .greaterEquals | .equals | .notEquals | .kwIn | .kwIs
  | .kwNot => comparison sub left
  | .pipe | .caret | .ampersand | .shiftLeft | .shiftRight | .plus | .dash | .star | .slash
  | .doubleSlash | .percent | .atSign => binary sub left p
  | .doubleStar => power sub left
  | .openParen => call sub left
  | .openBracket => subscript sub left
  | .dot => member left
  | _ => fail (.unexpectedToken token.value) token.span.start

def extensions (bound : Power) : Nat → Expr → Parser Expr
  | 0, _ => throw .exhausted
  | n + 1, left => do
    let p := Power.ofKind (← kind)
    if p.rank ≤ bound.rank then return left
    extensions bound n (← extend sub left p)

/-- An expression that binds more tightly than a power; the fuel bounds how deeply it nests. -/
def expression : Nat → Sub
  | 0, _ => throw .exhausted
  | n + 1, bound => do
    let left ← operand (expression n)
    extensions (expression n) bound (← get).budget left

end Credence.Grammar

import Credence.Source.Position
import Credence.Source.Line
import Credence.Text.Quoted

namespace Credence

inductive Cause where
  | unrecognisedToken (token : String)
  | unexpectedToken (token : String)
  | unexpectedTokenDetailed (token detail : String)
  | malformedNumber (token : String)
  | inconsistentDedent (width : Nat)
  | unterminatedString
  | unsupportedTarget (target : String)
  | unsupportedConstruct (construct : String)
  | cannotSetAttribute (field owner : String)
deriving DecidableEq

namespace Cause

open Text

def name : Cause → String
  | unrecognisedToken _ => "UnrecognisedToken"
  | unexpectedToken _ => "UnexpectedToken"
  | unexpectedTokenDetailed _ _ => "UnexpectedTokenDetailed"
  | malformedNumber _ => "NumberParseError"
  | inconsistentDedent _ => "InconsistentDedent"
  | unterminatedString => "UnterminatedString"
  | unsupportedTarget _ => "UnsupportedTarget"
  | unsupportedConstruct _ => "UnsupportedConstruct"
  | cannotSetAttribute _ _ => "CantSetAttribute"

def tip? : Cause → Option String
  | unrecognisedToken _ => none
  | unexpectedToken token =>
    some ("Unexpected token: `" ++ token ++ "`, is a bracket or colon missing?")
  | unexpectedTokenDetailed token detail =>
    some ("Unexpected token: `" ++ token ++ "`, " ++ detail)
  | malformedNumber token => some ("Invalid number literal: `" ++ token ++ "`")
  | inconsistentDedent width =>
    some ("Dedent to column " ++ toString width ++ " does not match any outer indentation level")
  | unterminatedString => some "String literal is never closed"
  | unsupportedTarget target => some ("Cannot assign to `" ++ target ++ "`")
  | unsupportedConstruct construct =>
    some ("`" ++ construct ++ "` is not modelled by the checker")
  | cannotSetAttribute field owner =>
    some ("Attribute `" ++ field ++ "` cannot be written on builtin type `" ++ owner ++ "`")

def message : Cause → String
  | unrecognisedToken token => "unrecognised token: " ++ quoted token
  | unexpectedToken token => "unexpected token: " ++ quoted token
  | unexpectedTokenDetailed token detail =>
    "unexpected token (" ++ quoted detail ++ "): " ++ quoted token
  | malformedNumber token => "error parsing number: " ++ quoted token
  | inconsistentDedent width => "inconsistent dedent to width " ++ toString width
  | unterminatedString => "unterminated string literal"
  | unsupportedTarget target => "unsupported assignment target " ++ quoted target
  | unsupportedConstruct construct => "unsupported construct " ++ quoted construct
  | cannotSetAttribute field owner =>
    "can't set attribute " ++ quoted field ++ " of builtin type " ++ owner

end Cause

structure Fault where
  cause : Cause
  position : Position
deriving DecidableEq

namespace Fault

open Text

def message (fault : Fault) : String :=
  let p := fault.position
  fault.cause.message ++ " at " ++ p.file ++ ":" ++ toString p.line ++ ":" ++ toString p.column

def headline (fault : Fault) : String :=
  match fault.cause.tip? with
  | none => "Error: " ++ fault.cause.name
  | some tip => "Error: " ++ fault.cause.name ++ " (" ++ tip ++ ")"

/-- The line of a view without its indentation, below a bar and above an arrow to the column. -/
def excerpt (view : LineView) : String :=
  let number := (toString view.number).toList
  let bar := padLeft ' ' (number.length + 2) ['|']
  let indentation := (view.text.takeWhile (· == ' ')).length
  let shown := trimEnd (view.text.drop indentation)
  let arrow := padLeft '-' (view.column - indentation + 1) ['^']
  String.ofList (bar ++ '\n' :: number ++ " | ".toList ++ shown ++ '\n' :: bar ++ ' ' :: arrow ++
    ['\n'])

def render (fault : Fault) (file source : String) : String :=
  let heading := fault.headline ++ "\n-> " ++ file ++ "\n"
  match lineAt? source.toList fault.position.offset with
  | none => heading
  | some view => heading ++ excerpt view

end Fault

/-- Why reading or checking stops: a fault, or no fuel left. -/
inductive Stop where
  | fault (fault : Fault)
  | exhausted

end Credence

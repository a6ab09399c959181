import Credence.Report.Number

namespace Credence

inductive DiagnosticKind where
  | attributeError | classAttributeError | typeError | subTypeError | overrideTypeError
  | valueAnnotationMismatch | returnValueMissing | argTypeError | argLenTypeError
deriving DecidableEq, Inhabited

namespace DiagnosticKind

def name : DiagnosticKind → String
  | attributeError => "AttributeError"
  | classAttributeError => "ClassAttributeError"
  | typeError => "TypeError"
  | subTypeError => "SubTypeError"
  | overrideTypeError => "OverrideTypeError"
  | valueAnnotationMismatch => "ValueAnnotationMismatch"
  | returnValueMissing => "ReturnValueMissing"
  | argTypeError => "ArgTypeError"
  | argLenTypeError => "ArgLenTypeError"

def all : List DiagnosticKind :=
  [attributeError, classAttributeError, typeError, subTypeError, overrideTypeError,
   valueAnnotationMismatch, returnValueMissing, argTypeError, argLenTypeError]

def ofName? (name : String) : Option DiagnosticKind :=
  all.find? (·.name == name)

theorem ofName?_name (k : DiagnosticKind) : ofName? k.name = some k := by
  cases k <;> decide

def isAttribute : DiagnosticKind → Bool
  | attributeError | classAttributeError => true
  | _ => false

end DiagnosticKind

structure Finding where
  kind : DiagnosticKind
  identifier : String
  confidence : Float
  message : String

structure Diagnostic where
  kind : DiagnosticKind
  file : String
  line : Nat
  identifier : String
  confidence : Float
  message : String

def Diagnostic.text (d : Diagnostic) : String :=
  "[" ++ d.kind.name ++ "] " ++ d.file ++ ":" ++ toString d.line ++ " " ++ d.identifier ++ " <<" ++
    plainNumber.render (roundTo 1000000.0 d.confidence) ++ ">> " ++ d.message

end Credence

import Credence.Check.Session
import Credence.Json.Number
import Credence.Json.Read

namespace Credence.Settings

def fieldNames : List String :=
  ["suppress_attribute_errors", "ignored_path_fragments", "ignore_stub_files",
   "default_confidence", "eager_check_annotated"]

/-- The named settings of a value. An object may not name one twice, an array may not have more than
there are; names of other things do not count. -/
def fields? : Json → Option (List (String × Json))
  | .obj members => do
    let named ← members.mapM fun (name, value) => name.map fun name => (name, value)
    let known := named.filter fun entry => fieldNames.contains entry.1
    if (known.map (·.1)).Nodup then some known else none
  | .arr items => if items.length ≤ fieldNames.length then some (fieldNames.zip items) else none
  | _ => none

def bool? : Json → Option Bool
  | .bool b => some b
  | _ => none

def number? : Json → Option Float
  | .number n => n.toFloat?
  | _ => none

def text? : Json → Option String
  | .str text => text
  | _ => none

def texts? : Json → Option (List String)
  | .arr items => items.mapM text?
  | _ => none

variable {α : Type}

def fieldOr (fields : List (String × Json)) (name : String) (read : Json → Option α)
    (default : α) : Option α :=
  match fields.lookup name with
  | some value => read value
  | none => some default

def ofText? (text : String) : Option Settings := do
  let fields ← fields? (← Json.read? text)
  let base : Settings := {}
  let suppressAttributeErrors ← fieldOr fields "suppress_attribute_errors" bool?
    base.filter.suppressAttributeErrors
  let ignoredPathFragments ← fieldOr fields "ignored_path_fragments" texts?
    base.filter.ignoredPathFragments
  let ignoreStubFiles ← fieldOr fields "ignore_stub_files" bool? base.filter.ignoreStubFiles
  let defaultConfidence ← fieldOr fields "default_confidence" number? base.defaultConfidence
  let eagerCheckAnnotated ← fieldOr fields "eager_check_annotated" bool? base.eagerCheckAnnotated
  return { filter := { ignoredPathFragments, ignoreStubFiles, suppressAttributeErrors }
           defaultConfidence, eagerCheckAnnotated }

end Credence.Settings

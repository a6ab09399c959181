
namespace Credence.Command

structure Options where
  files : List String := []
  config : Option String := none
  suppressAttributeErrors : Bool := false
  json : Bool := false
  verbosity : Nat := 0

namespace Options

def after? (start text : String) : Option String :=
  if start.toList.isPrefixOf text.toList then some (String.ofList (text.toList.drop start.length))
  else none

def short? (text : String) : Option Nat :=
  match text.toList with
  | '-' :: letters =>
    if !letters.isEmpty && letters.all (· == 'v') then some letters.length else none
  | _ => none

def isPlain (text : String) : Bool :=
  text == "-" || text.toList.head? != some '-'

/-- Reads arguments. An option may be given once only; after two dashes all are files. -/
def readOnto (options : Options) : List String → Option Options
  | [] => some options
  | "--" :: rest => some { options with files := options.files ++ rest }
  | "--json" :: rest => if options.json then none else readOnto { options with json := true } rest
  | "--suppress-attribute-errors" :: rest =>
    if options.suppressAttributeErrors then none
    else readOnto { options with suppressAttributeErrors := true } rest
  | "--verbose" :: rest => readOnto { options with verbosity := options.verbosity + 1 } rest
  | "--config" :: path :: rest =>
    if options.config.isSome || !isPlain path then none
    else readOnto { options with config := some path } rest
  | text :: rest =>
    match after? "--config=" text, short? text with
    | some path, _ =>
      if options.config.isSome then none else readOnto { options with config := some path } rest
    | none, some count => readOnto { options with verbosity := options.verbosity + count } rest
    | none, none =>
      if isPlain text then readOnto { options with files := options.files ++ [text] } rest
      else none

def ofArgs? (args : List String) : Option Options :=
  (readOnto {} args).filter fun options => !options.files.isEmpty

def paths (options : Options) : List String :=
  options.config.toList ++ options.files

end Options

end Credence.Command

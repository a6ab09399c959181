import Credence.Check.Config
import Credence.Check.Run
import Credence.Command.Options
import Credence.Grammar.Source
import Credence.Json.Write

namespace Credence

def Diagnostic.json (d : Diagnostic) : String :=
  Json.writeObject
    [("kind", Json.writeText d.kind.name), ("file", Json.writeText d.file),
     ("line", toString d.line), ("identifier", Json.writeText d.identifier),
     ("confidence", Json.writeNumber d.confidence), ("message", Json.writeText d.message)]

namespace Command

abbrev FileReader := String → Except String String

structure State where
  stdout : String := ""
  stderr : String := ""
  failed : Bool := false
  modules : ModuleCache := {}

structure Result where
  stdout : String
  stderr : String
  code : Nat
deriving DecidableEq

/-- The name of a file without what follows its last point; a point at the start stays. -/
def stem (name : List Char) : List Char :=
  let dotted := name.reverse.dropWhile (· != '.')
  match dotted with
  | '.' :: rest => if rest.isEmpty || name == ['.', '.'] then name else rest.reverse
  | _ => name

def trimHere : List Char → List Char
  | '.' :: '/' :: rest => trimHere rest
  | cs => cs

def moduleKey (path : String) : String :=
  let parts := splitAt '/' path.toList
  let name := parts.getLast?.getD []
  let start := path.toList.take (path.length - name.length)
  let key := (start ++ stem name).map fun c => if c == '\\' then '/' else c
  String.ofList (trimHere key)

def settings (options : Options) (read : FileReader) : Except String Settings := do
  let base ← match options.config with
    | none => pure {}
    | some path =>
      let text ← (read path).mapError fun reason => "reading " ++ path ++ ": " ++ reason
      match Settings.ofText? text with
      | some settings => pure settings
      | none => throw ("parsing " ++ path ++ ": invalid settings")
  if options.suppressAttributeErrors then
    return { base with filter := { base.filter with suppressAttributeErrors := true } }
  return base

def State.stopped (s : State) (stop : Stop) (path source : String) : State :=
  let text := match stop with
    | .fault fault => fault.render path source
    | .exhausted => "Error: out of fuel\n"
  { s with stderr := s.stderr ++ text, failed := true }

def checkFile (options : Options) (settings : Settings) (s : State) (path source : String) :
    State :=
  let outcome := do
    let m ← Module.ofSource source path
    m.check none path settings {} s.modules
  match outcome with
  | .error stop => s.stopped stop path source
  | .ok outcome =>
    let found := outcome.diagnostics
    let lines := found.map fun d => (if options.json then d.json else d.text) ++ "\n"
    { s with
      stdout := s.stdout ++ String.join lines
      failed := s.failed || !found.isEmpty
      modules := s.modules.insert (moduleKey path) outcome.table }

def checkFiles (options : Options) (settings : Settings) (read : FileReader) (s : State) :
    List String → Result
  | [] => ⟨s.stdout, s.stderr, if s.failed then 1 else 0⟩
  | path :: rest =>
    match read path with
    | .error reason => ⟨s.stdout, s.stderr ++ "Error: reading " ++ path ++ ": " ++ reason ++ "\n", 1⟩
    | .ok source =>
      checkFiles options settings read (checkFile options settings s path source) rest

def usage : String :=
  "Usage: credence [--config <JSON>] [--suppress-attribute-errors] [--json] [-v]... <FILES>...\n"

/-- The command as a function of its arguments and of the files. -/
def run (args : List String) (read : FileReader) : Result :=
  match Options.ofArgs? args with
  | none => ⟨"", usage, 2⟩
  | some options =>
    match settings options read with
    | .error reason => ⟨"", "Error: " ++ reason ++ "\n", 1⟩
    | .ok settings => checkFiles options settings read {} options.files

end Command

end Credence

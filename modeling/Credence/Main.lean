import Credence.Command.Run

open Credence.Command

def reasonOf : IO.Error → String
  | .noFileOrDirectory .. => "No such file or directory (os error 2)"
  | .permissionDenied .. => "Permission denied (os error 13)"
  | .inappropriateType .. => "Is a directory (os error 21)"
  | e => toString e

def readSource (path : String) : IO (String × Except String String) := do
  try
    return (path, .ok (← IO.FS.readFile path))
  catch e =>
    return (path, .error (reasonOf e))

def main (args : List String) : IO UInt32 := do
  let paths := ((Options.ofArgs? args).map Options.paths).getD []
  let sources ← paths.mapM readSource
  let result := run args fun path => (sources.lookup path).getD (.error "not read")
  IO.print result.stdout
  IO.eprint result.stderr
  return result.code.toUInt32

import Credence.Check.Session
import Credence.Scope.Adopt

namespace Credence

def modulePath (name : String) : String :=
  name.map fun c => if c == '.' then '/' else c

namespace Check

open CheckM

variable {α : Type}

def adopting (step : AdoptM α) : CheckM α := do
  let s ← get
  match step.run { arena := s.arena, scopes := s.scopes } with
  | .ok (x, adoption) =>
    set { s with arena := adoption.arena, scopes := adoption.scopes }
    return x
  | .error stop => throw stop

def adoptTable (name : String) (table : SymbolTable) : CheckM Ty := do
  let copier := Adoption.copier table.world
  let exports ← adopting (table.bindings.mapM fun b => Adoption.adopt copier b.type)
  return .module (← withArena (·.addModule { name, exports }))

/-- The module at a path, if it was checked. -/
def moduleAt? (path name : String) : CheckM (Option Ty) := do
  ((← read).modules.get? path).mapM (adoptTable name)

/-- Puts a value into the module that holds it, which is made up if it was not checked. -/
def wrapModule (parts : List String) (value : Ty) (depth : Nat) : CheckM Ty := do
  let name := String.intercalate "." (parts.take depth)
  let child := parts.getD depth ""
  match ← moduleAt? (modulePath name) name with
  | some (.module id) =>
    modifyArena (·.modifyModule id fun m => { m with exports := m.exports.insert child value })
    return .module id
  | _ => return .module (← withArena (·.addModule { name, exports := .ofList [(child, value)] }))

/-- Imports a module. A dotted name without another name binds its first component, from which the
others lead to the module. -/
def importModule (a : Alias) : CheckM Unit := do
  let value := (← moduleAt? (modulePath a.name) a.name).getD .any
  let parts := dottedParts a.name
  let bound ← if a.asname.isSome then pure value
    else ((List.range' 1 (parts.length - 1)).reverse).foldlM (wrapModule parts) value
  modifyScopes (·.set a.boundName bound 1.0)

/-- Imports all names of a module that do not start with a bar. -/
def importAll (table : SymbolTable) : CheckM Unit := do
  let copier := Adoption.copier table.world
  let isPublic (name : String) := name.toList.head? != some '_'
  adopting do
    for (name, binding) in table.bindings.entries.filter (isPublic ·.1) do
      let t ← Adoption.adopt copier binding.type
      modify fun s => { s with scopes := s.scopes.set name t binding.confidence }

def importName (module : String) (table? : Option SymbolTable) (a : Alias) : CheckM Unit := do
  match table?.bind fun table => (table.bindings.get? a.name).map fun b => (table, b) with
  | some (table, binding) =>
    let t ← adopting (Adoption.adopt (Adoption.copier table.world) binding.type)
    modifyScopes (·.set a.boundName t binding.confidence)
  | none =>
    match ← moduleAt? (modulePath module ++ "/" ++ a.name) (module ++ "." ++ a.name) with
    | some value => modifyScopes (·.set a.boundName value 1.0)
    | none => modifyScopes (·.set a.boundName .any 0.0)

def importFrom (module : String) (names : List Alias) : CheckM Unit := do
  let table? := (← read).modules.get? (modulePath module)
  for a in names do
    if a.name == "*" then
      if let some table := table? then importAll table
    else importName module table? a

end Check

end Credence

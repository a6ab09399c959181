import Credence.Check.Stmt

namespace Credence

def FunctionBody.weight : FunctionBody → Nat
  | .statements definition => bodyWeight definition.body + 1
  | .lambda value => value.weight + 1

def World.weight (w : World) : Nat :=
  w.arena.functions.foldl (fun total f => total + f.body.weight) 0

namespace Check

def innerUpTo : Nat → Inner
  | 0 =>
    { expr := fun _ => throw .exhausted
      block := fun _ => throw .exhausted
      call := fun _ _ _ => throw .exhausted }
  | n + 1 =>
    { expr := fun e => exprOver (innerUpTo n) e
      block := fun body => blockOver (innerUpTo n) body
      call := fun id receiver args => callOver (innerUpTo n) id receiver args }

/-- Fuel for a check. A body is not entered while it is being checked, so no more bodies are open at
a time than there are nodes, and none is deeper than its nodes. -/
def fuelFor (m : Module) (world : World) (modules : ModuleCache) : Nat :=
  let others := modules.entries.foldl (fun total entry => total + entry.2.world.weight) 0
  let nodes := bodyWeight m.body + world.weight + others + 2
  16 * nodes * nodes

def moduleName (path : String) : String :=
  let file := ((splitAt '/' path.toList).getLast?).getD []
  String.ofList (file.takeWhile (· != '.'))

/-- The session in which a module starts: in a scope of its own, inside of that of the parent. -/
def start (world : World) (parent : Option ScopeId) (path : String) (filter : Filter) :
    ScopeId × Session :=
  let outer := match parent with
    | some scope => world.scopes.goTo scope
    | none => world.scopes
  let (scope, scopes) := outer.enter (moduleName path)
  let bound := ["__name__", "__file__", "__doc__"].foldl (fun s name => s.set name .str 1.0)
    (scopes.setModule scope)
  (scope, { arena := world.arena, scopes := bound, hub := { cursor := { file := path }, filter } })

end Check

structure Outcome where
  table : SymbolTable
  events : List Event

namespace Outcome

def diagnostics (o : Outcome) : List Diagnostic :=
  o.events.filterMap fun
    | .diagnostic d => some d
    | .warning _ => none

def warnings (o : Outcome) : List String :=
  o.events.filterMap fun
    | .diagnostic _ => none
    | .warning text => some text

def log (o : Outcome) : List String :=
  o.events.map fun
    | .diagnostic d => d.text
    | .warning text => text

end Outcome

def Module.check (m : Module) (parent : Option SymbolTable) (path : String) (settings : Settings)
    (hints : Hints) (modules : ModuleCache) : Except Stop Outcome :=
  let world := (parent.map (·.world)).getD .withBuiltins
  let (scope, session) := Check.start world (parent.map (·.scope)) path settings.filter
  let context : Context := { settings, treeFile := m.file, hints, modules }
  let inner := Check.innerUpTo (Check.fuelFor m world modules)
  match ((inner.block m.body).run context).run session with
  | (.ok _, final) =>
    .ok { table := ⟨⟨final.arena, final.scopes⟩, scope, path⟩, events := final.events }
  | (.error stop, _) => .error stop

end Credence

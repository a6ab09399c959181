import Credence.Arena.Attribute
import Credence.Check.Memo
import Credence.Report.Hub
import Credence.Scope.Guard
import Credence.Scope.World

namespace Credence

structure Settings where
  filter : Filter := {}
  defaultConfidence : Float := 0.5
  eagerCheckAnnotated : Bool := true

instance : Inhabited Settings :=
  ⟨{}⟩

structure SymbolTable where
  world : World
  scope : ScopeId
  file : String

namespace SymbolTable

def bindings (t : SymbolTable) : Table Binding :=
  (t.world.scopes.scopeAt t.scope).bindings

def display (t : SymbolTable) (type : Ty) : String :=
  t.world.arena.display type

def text (t : SymbolTable) : String :=
  String.join ((t.bindings.entries.filter fun entry => !"__".toList.isPrefixOf entry.1.toList).map
    fun entry => entry.1 ++ ": " ++ t.display entry.2.type ++ "\n")

end SymbolTable

abbrev ModuleCache := Table SymbolTable

structure Context where
  settings : Settings := {}
  /-- The file of the tree; hints are for its nodes only. -/
  treeFile : String
  hints : Hints := {}
  modules : ModuleCache := {}

/-- A body that is being checked, with what it has returned and yielded so far. -/
structure Frame where
  function : FunctionId
  returns : List Ty := []
  yields : List Ty := []

inductive Event where
  | diagnostic (diagnostic : Diagnostic)
  | warning (text : String)

/-- What changes during a check. -/
structure Session where
  arena : Arena
  scopes : Scopes
  hub : Hub
  guard : Guard := {}
  memo : Memo := {}
  frames : List Frame := []
  classScopes : List (ScopeId × ClassId) := []
  /-- The objects that stand for the classes named in annotations. -/
  standIns : List (ClassId × ObjectId) := []
  events : List Event := []

/-- Steps of a check. What was changed before a stop stays changed. -/
abbrev CheckM := ReaderT Context (ExceptT Stop (StateM Session))

namespace CheckM

variable {α : Type}

def getArena : CheckM Arena := do
  return (← get).arena

def getScopes : CheckM Scopes := do
  return (← get).scopes

def withArena (f : Arena → α × Arena) : CheckM α :=
  modifyGet fun s =>
    let (x, arena) := f s.arena
    (x, { s with arena })

def modifyArena (f : Arena → Arena) : CheckM Unit :=
  modify fun s => { s with arena := f s.arena }

def withScopes (f : Scopes → α × Scopes) : CheckM α :=
  modifyGet fun s =>
    let (x, scopes) := f s.scopes
    (x, { s with scopes })

def modifyScopes (f : Scopes → Scopes) : CheckM Unit :=
  modify fun s => { s with scopes := f s.scopes }

def modifyHub (f : Hub → Hub) : CheckM Unit :=
  modify fun s => { s with hub := f s.hub }

def fail (cause : Cause) (position : Position) : CheckM α :=
  throw (.fault ⟨cause, position⟩)

def attempt (x : CheckM α) : CheckM (Except Stop α) :=
  fun context => ExceptT.mk do
    let result ← (x context).run
    return .ok result

def ensuring (x : CheckM α) (after : CheckM Unit) : CheckM α := do
  let result ← attempt x
  after
  match result with
  | .ok a => return a
  | .error stop => throw stop

def inScope (name : String) (body : CheckM α) : CheckM α := do
  let _ ← withScopes (·.enter name)
  ensuring body (modifyScopes (·.exit))

def inClassBody (name : String) (id : ClassId) (body : ScopeId → CheckM α) : CheckM α := do
  let scope ← withScopes (·.enter name)
  modify fun s => { s with classScopes := (scope, id) :: s.classScopes }
  ensuring (body scope)
    (modify fun s => { s with classScopes := s.classScopes.tail, scopes := s.scopes.exit })

/-- A block in a branch scope, whose bindings merge into the scope around it. -/
def inBranch (name : String) (body : CheckM Unit) : CheckM Unit := do
  let _ ← withScopes (·.enter name)
  ensuring body (modify fun s => { s with scopes := s.scopes.exitBranch s.arena })

def suppressing (kinds : List DiagnosticKind) (body : CheckM Unit) : CheckM Unit := do
  modifyHub (·.pushSuppression kinds)
  ensuring body (modifyHub (·.popSuppression))

def report (finding : Finding) : CheckM Unit :=
  modifyHub fun h => (h.report finding).2

def reportAll (findings : List Finding) : CheckM Unit :=
  modifyHub (·.reportAll findings)

def warn (text : String) : CheckM Unit :=
  modify fun s => { s with events := s.events ++ [.warning text] }

def flush : CheckM Unit :=
  modify fun s =>
    let (diagnostics, hub) := s.hub.drain
    { s with hub, events := s.events ++ diagnostics.map .diagnostic }

def display (t : Ty) : CheckM String := do
  return (← getArena).display t

def stamp : CheckM Stamp := do
  let s ← get
  return ⟨s.scopes.current, s.scopes.generation, s.arena.generation⟩

/-- The hint for an expression. -/
def hint? (e : Expr) : CheckM (Option (Ty × Float)) := do
  let context ← read
  return if e.span.start.file == context.treeFile then context.hints.get? e.span else none

def confidenceOf (e : Expr) : CheckM Float := do
  match ← hint? e with
  | some (_, probability) => return probability
  | none => return (← read).settings.defaultConfidence

def defaultProbability : CheckM Float := do
  return errorProbability (← read).settings.defaultConfidence

def readAttribute (t : Ty) (name : String) (confidence : Float) : CheckM Ty := do
  let reading := (← getArena).readAttribute t name confidence
  modifyArena fun _ => reading.arena
  reportAll reading.findings
  return reading.type

def bindName (name : String) (value : Ty) (confidence : Float) : CheckM Unit := do
  let (findings, scopes) := (← getScopes).add (← getArena) name value confidence
  modifyScopes fun _ => scopes
  reportAll findings

def standIn (id : ClassId) : CheckM Ty := do
  match (← get).standIns.lookup id with
  | some object => return .object object
  | none =>
    let object ← withArena (·.addObject id)
    modify fun s => { s with standIns := (id, object) :: s.standIns }
    return .object object

end CheckM

end Credence

import Credence.Builtin.Call
import Credence.Check.Session

namespace Credence

structure CallArgs where
  positional : List Ty := []
  keywords : List (String × Ty) := []
  openPositional : Bool := false
  openKeywords : Bool := false

namespace CallArgs

def isEmpty (args : CallArgs) : Bool :=
  args.positional.isEmpty && args.keywords.isEmpty && !args.openPositional && !args.openKeywords

/-- Parameters may go without an argument here, since a spread one may provide it. -/
def isOpen (args : CallArgs) : Bool :=
  args.openPositional || args.openKeywords

end CallArgs

structure Bound where
  table : Table Ty := {}
  /-- Values of the keywords that no parameter has. -/
  spare : List Ty := []
  findings : List Finding := []

namespace FunctionInfo

def argumentFinding (probability : Float) (kind : DiagnosticKind) (identifier message : String) :
    Finding :=
  ⟨kind, identifier, probability, message⟩

def bindPositional (f : FunctionInfo) (values : List Ty) : Table Ty :=
  .ofList ((f.signature.args.map (·.name)).zip values)

/-- Binds a keyword argument: to the parameter of its name, unless that has a value, or else to the
parameter that collects keywords. -/
def bindKeyword (f : FunctionInfo) (probability : Float) (bound : Bound) (argument : String × Ty) :
    Bound :=
  let (name, value) := argument
  let complain (what : String) : Bound :=
    { bound with findings := bound.findings ++
        [argumentFinding probability .argTypeError name (f.name ++ "() got " ++ what ++ name)] }
  if f.signature.named.any (·.name == name) then
    if bound.table.contains name then complain "multiple values for argument "
    else { bound with table := bound.table.insert name value }
  else if f.signature.kwarg.isSome then { bound with spare := bound.spare ++ [value] }
  else complain "an unexpected keyword argument "

/-- Binds a parameter without an argument to its default, or else to anything, and then it counts as
missing. -/
def bindDefault (state : Table Ty × List String) (p : ParamInfo) : Table Ty × List String :=
  if state.1.contains p.name then state
  else
    match p.default with
    | some t => (state.1.insert p.name t, state.2)
    | none => (state.1.insert p.name .any, state.2 ++ [p.name])

def countFindings (f : FunctionInfo) (probability : Float) (missing : List String)
    (extra : Nat) : List Finding :=
  let complain (what : String) : Finding :=
    argumentFinding probability .argLenTypeError f.name (f.name ++ "() " ++ what)
  let count := f.signature.args.length
  (if missing.isEmpty then []
    else [complain ("missing arguments: " ++ String.intercalate ", " missing)]) ++
  (if extra == 0 || f.signature.vararg.isSome then []
    else [complain ("takes " ++ toString count ++ " positional arguments but " ++
      toString (count + extra) ++ " were given")])

def bindCollectors (f : FunctionInfo) (extra spare : List Ty) (bound : Table Ty) : Table Ty :=
  let bound := match f.signature.vararg with
    | some p => bound.insert p.name (.tupleOf extra)
    | none => bound
  match f.signature.kwarg with
  | some p =>
    let values := Ty.oneOf spare
    bound.insert p.name
      (if values.isUnknown then .dictOf [] [] else .dictOf [.str] [values])
  | none => bound

/-- Holds a parameter to its annotation: an argument that is unknown or none takes the type of the
annotation, and so does one that does not fit, which is reported. -/
def holdToAscription (f : FunctionInfo) (a : Arena) (probability : Float)
    (state : Table Ty × List Finding) (p : ParamInfo) : Table Ty × List Finding :=
  match p.ascribed, state.1.get? p.name with
  | some ascribed, some value =>
    if ascribed.isUnknown then state
    else if value.isUnknown || value.isNone then (state.1.insert p.name ascribed, state.2)
    else if a.isSubtype value ascribed then state
    else
      let finding := argumentFinding probability .valueAnnotationMismatch p.name
        ("argument " ++ p.name ++ " of " ++ f.name ++ "() expects " ++ a.display ascribed ++
          ", got " ++ a.display value)
      (state.1.insert p.name ascribed, state.2 ++ [finding])
  | _, _ => state

def bindArguments (f : FunctionInfo) (a : Arena) (probability : Float) (receiver : Option Ty)
    (args : CallArgs) : List (String × Ty) × List Finding :=
  let values := receiver.toList ++ args.positional
  let extra := values.drop f.signature.args.length
  let start : Bound := { table := f.bindPositional values }
  let bound := args.keywords.foldl (f.bindKeyword probability) start
  let (filled, unbound) := f.signature.named.foldl bindDefault (bound.table, [])
  let missing := if args.isOpen then [] else unbound
  let counted := bound.findings ++ f.countFindings probability missing extra.length
  let full := f.bindCollectors extra bound.spare filled
  let (table, findings) :=
    f.signature.named.foldl (f.holdToAscription a probability) (full, counted)
  (table.entries, findings)

def returnedType (f : FunctionInfo) (frame : Frame) : Ty :=
  if f.isGenerator then .container (frame.yields.foldl Container.pushKnown { kind := .list })
  else .oneOf (if f.alwaysReturns then frame.returns else frame.returns ++ [.none])

def guardKey (f : FunctionInfo) : String :=
  f.file ++ ":" ++ toString f.line ++ ":" ++ f.name

/-- The types of the names that a body reads, as its captured scope has them now. -/
def capturedView (f : FunctionInfo) (scopes : Scopes) : List (Option Ty) :=
  f.reads.map fun name => (scopes.lookupFrom f.captured name).map (·.type)

end FunctionInfo

namespace Check

open CheckM

structure Inner where
  expr : Expr → CheckM Ty
  block : List Stmt → CheckM Unit
  call : FunctionId → Option Ty → CallArgs → CheckM Ty

/-- The type of a call to a function whose body is being checked: the declared one, what was
returned so far, or what was returned last. -/
def recursiveResult (id : FunctionId) (f : FunctionInfo) : CheckM Ty := do
  match f.declared? with
  | some declared => return declared
  | none =>
    let frames := (← get).frames
    let seen := ((frames.find? (·.function == id)).map (·.returns)).getD []
    if seen.isEmpty then return f.lastReturn.getD .any else return .oneOf seen

/-- What a body gives by itself: nothing for statements, whose returns are recorded on the way. -/
def evaluateBody (inner : Inner) : FunctionBody → CheckM (Option Ty)
  | .statements definition => do
    inner.block definition.body
    return none
  | .lambda value => return some (← inner.expr value)

def runBody (inner : Inner) (id : FunctionId) (f : FunctionInfo)
    (arguments : List (String × Ty)) : CheckM Ty := do
  let cursor := (← get).hub.cursor
  modifyHub (·.moveTo ⟨f.file, f.line⟩)
  let _ ← withScopes (·.enterFunction f.name f.captured arguments)
  modify fun s => { s with frames := { function := id } :: s.frames }
  let outcome ← attempt (evaluateBody inner f.body)
  let frame := (← get).frames.head?.getD { function := id }
  modify fun s => { s with frames := s.frames.tail }
  modifyScopes (·.exitFunction)
  modifyHub (·.moveTo cursor)
  modify fun s => { s with guard := s.guard.exit f.guardKey }
  match outcome with
  | .ok (some t) => return t
  | .ok none => return f.returnedType frame
  | .error stop => throw stop

/-- The type of a call with its arguments bound. The body is checked unless the result of such a call
is known or the body is being checked already. -/
def resultOver (inner : Inner) (id : FunctionId) (f : FunctionInfo)
    (arguments : List (String × Ty)) : CheckM Ty := do
  let key : CallKey := ⟨arguments, f.capturedView (← getScopes)⟩
  match f.cached? key with
  | some known => return known
  | none =>
    match (← get).guard.enter? f.guardKey with
    | none => recursiveResult id f
    | some guard =>
      modify fun s => { s with guard }
      let inferred ← runBody inner id f arguments
      let result := f.declared?.getD inferred
      modifyArena (·.modifyFunction id (·.remember key result))
      return result

def callOver (inner : Inner) (id : FunctionId) (receiver : Option Ty) (args : CallArgs) :
    CheckM Ty := do
  let arena ← getArena
  let f := arena.functionAt id
  let bound := f.bindArguments arena (← defaultProbability) receiver args
  reportAll bound.2
  if f.isStub then return f.declared?.getD .any else resultOver inner id f bound.1

def callSpecial (inner : Inner) (object : ObjectId) (name : String) (args : CallArgs) :
    CheckM (Option Ty) := do
  let cls := (← getArena).classOf object
  match ← withArena (·.classLookup cls name) with
  | some (.function f) =>
    let receiver := match ((← getArena).functionAt f).kind with
      | .ordinary => some (.object object)
      | .classMethod => some (.classObj cls)
      | .staticMethod => none
    return some (← inner.call f receiver args)
  | _ => return none

def callSpecialOf (inner : Inner) (value : Ty) (name : String) (args : CallArgs) :
    CheckM (Option Ty) :=
  match value with
  | .object id => callSpecial inner id name args
  | _ => return none

def madeByClass (inner : Inner) (id : ClassId) (args : CallArgs) : CheckM (Option ObjectId) := do
  match ← withArena (·.classLookup id "__new__") with
  | some (.function f) =>
    match ← inner.call f (some (.classObj id)) args with
    | .object object =>
      let arena ← getArena
      return if arena.isSubclass (arena.classOf object) id then some object else none
    | _ => return none
  | _ => return none

/-- Initialises an object of a class. Arguments for which there is no initialiser are reported,
unless the class itself has made the object. -/
def initialise (inner : Inner) (id : ClassId) (args : CallArgs) (object : ObjectId)
    (isMade : Bool) : CheckM Unit := do
  match ← withArena (·.classLookup id "__init__") with
  | some (.function f) =>
    let _ ← inner.call f (some (.object object)) args
  | _ =>
    let arena ← getArena
    let info := arena.classAt id
    if !args.isEmpty && !isMade && !info.hasUnknownBase && !info.isDecorated &&
        info.name.isSome then
      let name := arena.className id
      report ⟨.argLenTypeError, name, ← defaultProbability, name ++ "() takes no arguments"⟩

def instantiate (inner : Inner) (id : ClassId) (args : CallArgs) : CheckM Ty := do
  match ← madeByClass inner id args with
  | some object =>
    initialise inner id args object true
    return .object object
  | none =>
    let object ← withArena (·.addObject id)
    initialise inner id args object false
    return .object object

def callType (inner : Inner) (callee : Ty) (args : CallArgs) : CheckM Ty := do
  match callee with
  | .union u =>
    let results ← u.elts.attach.mapM fun ⟨t, _⟩ => callType inner t args
    return .oneOf results (some u.probs)
  | .builtin b =>
    let (result, warning) := b.resolve args.positional
    if let some text := warning then warn text
    return result
  | .function id =>
    let f := (← getArena).functionAt id
    let receiver := match f.kind, f.owner with
      | .classMethod, some owner => some (.classObj owner)
      | _, _ => none
    inner.call id receiver args
  | .method object id => inner.call id (some (.object object)) args
  | .classObj id => instantiate inner id args
  | .object id => return (← callSpecial inner id "__call__" args).getD .any
  | .any | .undefined | .prim _ | .container _ | .module _ => return .any
termination_by sizeOf callee
decreasing_by exact Ty.sizeOf_lt_of_mem_union ‹_›

def iterationType (inner : Inner) (iterable : Ty) : CheckM Ty := do
  match iterable with
  | .object id =>
    match ← callSpecial inner id "__iter__" {} with
    | some (.object iterator) => return (← callSpecial inner iterator "__next__" {}).getD .any
    | some other => return other.elementType
    | none => return .any
  | .union u =>
    let elements ← u.elts.attach.mapM fun ⟨t, _⟩ => iterationType inner t
    return .oneOf elements (some u.probs)
  | other => return other.elementType
termination_by sizeOf iterable
decreasing_by exact Ty.sizeOf_lt_of_mem_union ‹_›

def instanceType? (classes : Ty) : CheckM (Option Ty) := do
  match classes with
  | .classObj id => return some (← standIn id)
  | .builtin b =>
    match Prim.ofName? b.name, ContainerKind.ofName? b.name with
    | some p, _ => return some (.prim p)
    | none, some kind => return some (.container { kind })
    | none, none => return none
  | .container c =>
    if c.kind == .tuple then
      let found ← c.elts.attach.mapM fun ⟨t, _⟩ => instanceType? t
      let alternatives := found.filterMap id
      return if alternatives.isEmpty then none else some (.oneOf alternatives)
    else return none
  | _ => return none
termination_by sizeOf classes
decreasing_by exact Ty.sizeOf_lt_of_mem_elts ‹_›

end Check

end Credence

import Credence.Check.Expr
import Credence.Tree.Returns

namespace Credence

def FunctionDef.methodKind (definition : FunctionDef Stmt) : MethodKind :=
  if definition.hasDecorator "staticmethod" then .staticMethod
  else if definition.hasDecorator "classmethod" then .classMethod
  else .ordinary

/-- Whether all parameters have annotations; the receiver of a method needs none. -/
def FunctionDef.isAnnotated (definition : FunctionDef Stmt) (isMethod : Bool) : Bool :=
  let skip := if isMethod && definition.methodKind != .staticMethod then 1 else 0
  (definition.params.args.drop skip ++ definition.params.kwonly).all (·.ascription.isSome)

def Stmt.targets (s : Stmt) : List Expr :=
  match s.form with
  | .assign targets _ => targets
  | .ascribe target _ _ | .augAssign target _ _ => [target]
  | .forLoop target _ _ _ _ => [target]
  | .withItems items _ _ => items.filterMap (·.vars)
  | _ => []

def Expr.receiverTargets (receiver : String) (names : List String) (target : Expr) :
    List String :=
  match _h : target.form with
  | .member value attr => if value.asName? == some receiver then addName names attr else names
  | .tuple elts | .list elts =>
    elts.attach.foldl (fun names ⟨e, _⟩ => e.receiverTargets receiver names) names
  | .starred inner => inner.receiverTargets receiver names
  | _ => names
termination_by sizeOf target
decreasing_by
  all_goals exact Expr.sizeOf_lt_of_mem_children (by simp_all [Expr.children, ExprForm.children])

def receiverAttributes (receiver : String) (names : List String) : List Stmt → List String
  | [] => names
  | s :: rest =>
    let own := s.targets.foldl (Expr.receiverTargets receiver) names
    let nested :=
      s.blocks.attach.foldl (fun names ⟨b, _⟩ => receiverAttributes receiver names b) own
    receiverAttributes receiver nested rest
termination_by body => sizeOf body
decreasing_by
  · have := Stmt.sizeOf_lt_of_mem_blocks ‹_›
    simp only [List.cons.sizeOf_spec]
    omega
  · simp only [List.cons.sizeOf_spec]
    omega

def ClassDef.receiverAttributes (definition : ClassDef Stmt) : List String :=
  definition.body.foldl (fun names s =>
    match s.form with
    | .functionDef method =>
      match method.methodKind, method.params.args.head? with
      | .staticMethod, _ | _, none => names
      | _, some receiver => Credence.receiverAttributes receiver.name names method.body
    | _ => names) []

namespace Check

open CheckM

/-- The class whose body the check is in, with the scope of the body. -/
def enclosingClass? : CheckM (Option (ScopeId × ClassId)) := do
  let s ← get
  return s.classScopes.head?.filter fun entry =>
    (s.scopes.chain s.scopes.current).contains entry.1

def lastComponent (name : String) : String :=
  (dottedParts name).getLast?.getD name

/-- What a decorated function is bound to; none if its decorators leave the old binding. -/
def decorated (inner : Inner) (definition : FunctionDef Stmt) (id : FunctionId) :
    CheckM (Option Ty) :=
  definition.decorators.reverse.foldlM (fun (value? : Option Ty) decorator => do
    match value? with
    | none => return none
    | some value =>
      match lastComponent (decorator.dottedName?.getD "") with
      | "staticmethod" | "classmethod" | "abstractmethod" | "overload" => return some value
      | "property" | "cached_property" =>
        return some (((← getArena).functionAt id).declaredReturn.getD .any)
      | "setter" | "deleter" => return none
      | _ =>
        let t ← inner.expr decorator
        return some (← callType inner t { positional := [value] }))
    (some (.function id))

def eagerCheck (inner : Inner) (id : FunctionId) (receiver : Option Ty) : CheckM Unit := do
  let signature := ((← getArena).functionAt id).signature
  let skip := if receiver.isSome then 1 else 0
  let _ ← inner.call id receiver
    { positional := (signature.args.drop skip).map fun p => p.ascribed.getD .any
      keywords := signature.kwonly.map fun p => (p.name, p.ascribed.getD .any) }

def reportMissingReturn (definition : FunctionDef Stmt) (facts : ReturnFacts)
    (declared? : Option Ty) : CheckM Unit := do
  if let some declared := declared? then
    let exempt := isStub definition.body || definition.hasDecorator "abstractmethod" ||
      definition.hasDecorator "overload" || facts.hasReturn || facts.alwaysReturns ||
      facts.isGenerator
    if !declared.isUnknown && !declared.isNone && !exempt then
      let shown ← display declared
      modifyHub fun h => (h.reportAt ⟨h.cursor.file, definition.span.line⟩
        ⟨.returnValueMissing, definition.name, 1.0,
          definition.name ++ "() is declared to return " ++ shown ++
            " but has no return statement"⟩).2

def checkFunctionDef (inner : Inner) (definition : FunctionDef Stmt) : CheckM Unit := do
  let facts := ReturnFacts.ofBody definition.body
  let enclosing ← enclosingClass?
  let scopes ← getScopes
  let captured := match enclosing with
    | some (scope, _) => (scopes.scopeAt scope).parent.getD Scopes.global
    | none => scopes.current
  let signature ← signatureOf inner definition.params
  let declaredReturn ← definition.returns.mapM ascription
  reportMissingReturn definition facts declaredReturn
  let file := (← get).hub.cursor.file
  let id ← withArena (·.addFunction
    { name := definition.name, signature, declaredReturn, body := .statements definition, captured
      owner := enclosing.map (·.2), kind := definition.methodKind
      hasReturn := facts.hasReturn, alwaysReturns := facts.alwaysReturns
      isStub := isStub definition.body, isGenerator := facts.isGenerator
      reads := namesUsed definition.body, line := definition.span.line, file })
  if let some value ← decorated inner definition id then
    bindName definition.name value 1.0
    let eager := (← read).settings.eagerCheckAnnotated
    if eager && enclosing.isNone && definition.isAnnotated false then eagerCheck inner id none

/-- The bases of a class, and whether one of them is no known class. -/
def checkBases (inner : Inner) (bases : List Expr) : CheckM (List ClassId × Bool) :=
  bases.foldlM (fun (known, unknown) base => do
    if base.asName? == some "object" then return (known, unknown)
    match ← inner.expr base with
    | .classObj id => return (known ++ [id], unknown)
    | _ => return (known, true)) ([], false)

def methodReceiver (id : ClassId) (kind : MethodKind) : CheckM Ty := do
  if kind == .classMethod then return .classObj id else Ty.object <$> withArena (·.addObject id)

def eagerCheckMethods (inner : Inner) (id : ClassId) : CheckM Unit := do
  let arena ← getArena
  let methods := (arena.classAt id).attributes.entries.filterMap fun entry =>
    match entry.2 with
    | .function f => if (arena.functionAt f).owner == some id then some f else none
    | .value _ => none
  for f in methods do
    let info := (← getArena).functionAt f
    if let .statements definition := info.body then
      if definition.isAnnotated true then
        if info.kind == .staticMethod then eagerCheck inner f none
        else if !definition.params.args.isEmpty then
          eagerCheck inner f (some (← methodReceiver id info.kind))

def checkClassDef (inner : Inner) (definition : ClassDef Stmt) : CheckM Unit := do
  for decorator in definition.decorators do
    let _ ← inner.expr decorator
  let (bases, hasUnknownBase) ← checkBases inner definition.bases
  for keyword in definition.keywords do
    let _ ← inner.expr keyword.value
  let file := (← get).hub.cursor.file
  let id ← withArena (·.addClass
    { name := some definition.name, bases, hasUnknownBase
      isDecorated := !definition.decorators.isEmpty
      attributes := .ofList (definition.receiverAttributes.map fun name =>
        (name, .value .undefined))
      line := definition.span.line, file })
  let members ← inClassBody definition.name id fun scope => do
    inner.block definition.body
    return ((← getScopes).scopeAt scope).bindings.entries
  modifyArena (·.modifyClass id fun c =>
    { c with attributes := c.attributes.insertMany (members.map fun (name, b) =>
        (name, .ofType b.type)) })
  bindName definition.name (.classObj id) 1.0
  if (← read).settings.eagerCheckAnnotated then eagerCheckMethods inner id

end Check

end Credence

import Credence.Check.Definition
import Credence.Check.Import

namespace Credence.Check

open CheckM

/-- The kinds of diagnostics that a handler of an exception silences. -/
def handledKinds (name : String) : List DiagnosticKind :=
  match lastComponent name with
  | "AttributeError" => [.attributeError, .classAttributeError]
  | "TypeError" => [.typeError, .subTypeError]
  | _ => []

def exceptionNames (e : Expr) : List String :=
  match _h : e.form with
  | .tuple elts => elts.attach.flatMap fun ⟨elt, _⟩ => exceptionNames elt
  | _ => e.dottedName?.toList
termination_by sizeOf e
decreasing_by
  exact Expr.sizeOf_lt_of_mem_children (by simpa [Expr.children, ExprForm.children, _h])

/-- Whether a context silences missing attributes, as one that is given their exception does. -/
def silencesAttributes (context : Expr) : Bool :=
  match context.form with
  | .call _ args _ =>
    (args.flatMap exceptionNames).any fun name => lastComponent name == "AttributeError"
  | _ => false

section Statements

variable (inner : Inner)

def checkElse (body : List Stmt) : CheckM Unit := do
  if !body.isEmpty then inBranch "<else>" (inner.block body)

def holdToDeclared (f : FunctionInfo) (t : Ty) (confidence : Float) : CheckM Unit := do
  if let some declared := f.declared? then
    let arena ← getArena
    let exempt := f.isGenerator || t.isUnknown || t.isNone
    if !exempt && !arena.isSubtype t declared then
      report ⟨.valueAnnotationMismatch, f.name, errorProbability confidence,
        f.name ++ "() is declared to return " ++ arena.display declared ++ " but returns " ++
          arena.display t⟩

/-- Records a returned value, in the innermost body that is being checked. -/
def recordReturn (t : Ty) (confidence : Float) : CheckM Unit := do
  if let frame :: _ := (← get).frames then
    holdToDeclared ((← getArena).functionAt frame.function) t confidence
    modify fun s =>
      match s.frames with
      | frame :: rest => { s with frames := { frame with returns := frame.returns ++ [t] } :: rest }
      | [] => s

def checkReturn (value : Option Expr) : CheckM Unit := do
  match value with
  | some value =>
    let t ← inner.expr value
    recordReturn t (← confidenceOf value)
  | none => recordReturn .none (← read).settings.defaultConfidence

def checkAscribed (target ascribed : Expr) (value : Option Expr) : CheckM Unit := do
  let declared ← ascription ascribed
  match target.form, value with
  | .name name, some value =>
    let t ← inner.expr value
    let confidence ← confidenceOf value
    let (findings, scopes) := (← getScopes).addAscribed (← getArena) name declared t confidence
    modifyScopes fun _ => scopes
    reportAll findings
  | .name name, none =>
    if !(← getScopes).bindsHere name then modifyScopes (·.set name declared 1.0)
  | _, some value =>
    let t ← inner.expr value
    assign inner target t (← confidenceOf value) .checked
  | _, none => return

def caughtType (type : Option Expr) : CheckM Ty := do
  match type with
  | some e => return (← instanceType? (← inner.expr e)).getD .any
  | none => return .any

def checkHandler (handler : Handler Stmt) : CheckM Unit := do
  modifyHub (·.setLine handler.span.line)
  let caught ← caughtType inner handler.type
  match handler.name with
  | some name =>
    modifyScopes (·.set name caught 1.0)
    inner.block handler.body
    modifyScopes fun s => (s.remove name).2
  | none => inner.block handler.body

def checkTry (body : List Stmt) (handlers : List (Handler Stmt))
    (orelse finalbody : List Stmt) : CheckM Unit := do
  let names := (handlers.filterMap (·.type)).flatMap exceptionNames
  suppressing (names.flatMap handledKinds) (inner.block body)
  for handler in handlers do
    checkHandler inner handler
  inner.block orelse
  inner.block finalbody

def enteredType (context : Ty) : CheckM Ty := do
  match context with
  | .object id => return (← callSpecial inner id "__enter__" {}).getD .any
  | _ => return context

def checkWith (items : List WithItem) (body : List Stmt) : CheckM Unit := do
  for item in items do
    let context ← inner.expr item.context
    if let some vars := item.vars then
      assign inner vars (← enteredType inner context) (← confidenceOf item.context) .checked
  let kinds := if items.any (silencesAttributes ·.context) then
    [.attributeError, .classAttributeError] else []
  suppressing kinds (inner.block body)

def checkDelete (target : Expr) : CheckM Unit := do
  match _h : target.form with
  | .name name => modifyScopes fun s => (s.remove name).2
  | .member value attr =>
    let owner ← inner.expr value
    modifyArena fun a => (a.deleteAttribute owner attr).2
  | .tuple targets | .list targets => targets.attach.forM fun ⟨t, _⟩ => checkDelete t
  | _ =>
    let _ ← inner.expr target
termination_by sizeOf target
decreasing_by
  all_goals exact Expr.sizeOf_lt_of_mem_children (by simp_all [Expr.children, ExprForm.children])

def checkStmt (s : Stmt) : CheckM Unit := do
  modifyHub (·.setLine s.line)
  match s.form with
  | .expr value =>
    let _ ← inner.expr value
  | .assign targets value =>
    let t ← inner.expr value
    let confidence ← confidenceOf value
    for target in targets do
      assign inner target t confidence .checked
  | .ascribe target ascribed value => checkAscribed inner target ascribed value
  | .augAssign target op value =>
    let current ← inner.expr target
    let operand ← inner.expr value
    let confidence := lesser (← confidenceOf target) (← confidenceOf value)
    let result ← binaryResult inner op current operand confidence
    assign inner target result confidence .checked
  | .ret value => checkReturn inner value
  | .pass | .brk | .cont => return
  | .ifElse test body orelse | .whileLoop test body orelse =>
    inBranch "<if>" do
      checkCondition inner test
      inner.block body
    checkElse inner orelse
  | .forLoop target iter body orelse _ =>
    let element ← iterationType inner (← inner.expr iter)
    let confidence ← confidenceOf iter
    inBranch "<for>" do
      assign inner target element confidence .checked
      inner.block body
    checkElse inner orelse
  | .tryExcept body handlers orelse finalbody => checkTry inner body handlers orelse finalbody
  | .withItems items body _ => checkWith inner items body
  | .functionDef definition => checkFunctionDef inner definition
  | .classDef definition => checkClassDef inner definition
  | .importModules names =>
    for a in names do
      importModule a
  | .importFrom module names _ => importFrom module names
  | .globalNames names =>
    for name in names do
      modifyScopes (·.declareGlobal name)
  | .nonlocalNames names =>
    for name in names do
      modifyScopes (·.declareNonlocal name)
  | .delete targets =>
    for target in targets do
      checkDelete inner target
  | .assert test message =>
    checkCondition inner test
    for e in message do
      let _ ← inner.expr e
  | .raise exc cause =>
    for e in exc.toList ++ cause.toList do
      let _ ← inner.expr e

/-- Checks the statements of a block in turn. One with a fault is skipped with a warning. -/
def blockWith (check : Stmt → CheckM Unit) (body : List Stmt) : CheckM Unit := do
  for s in body do
    match ← attempt (check s) with
    | .ok _ => pure ()
    | .error (.fault fault) =>
      let file := (← get).hub.cursor.file
      warn ("skipping statement at " ++ file ++ ":" ++ toString s.line ++ ": " ++ fault.message)
    | .error .exhausted => throw .exhausted
  flush

def blockOver (body : List Stmt) : CheckM Unit :=
  blockWith (checkStmt inner) body

end Statements

end Credence.Check

import Credence.Arena.Operation
import Credence.Check.Assign
import Credence.Check.Signature

namespace Credence.Check

open CheckM

def namesBuiltin (func : Expr) (name : String) : CheckM Bool := do
  if func.asName? == some name then
    match (← getScopes).find name with
    | .builtin b => return b.name == name
    | _ => return false
  else return false

section Parts

variable (inner : Inner)

/-- The types of arguments. A tuple that is spread gives its elements. -/
def arguments (args : List Expr) (keywords : List (Keyword Expr)) : CheckM CallArgs := do
  let spread ← args.foldlM (fun (result : CallArgs) arg => do
    match arg.starred? with
    | some spread =>
      match ← inner.expr spread with
      | .container c =>
        if c.kind == .tuple && !c.isEmpty then
          return { result with positional := result.positional ++ c.elts }
        else return { result with openPositional := true }
      | _ => return { result with openPositional := true }
    | none => return { result with positional := result.positional ++ [← inner.expr arg] }) {}
  keywords.foldlM (fun (result : CallArgs) keyword => do
    let value ← inner.expr keyword.value
    match keyword.arg with
    | some name => return { result with keywords := result.keywords ++ [(name, value)] }
    | none => return { result with openKeywords := true }) spread

/-- Reports the alternatives of an argument that should be a class and are none. An alternative of a
union counts with its own probability. -/
def reportNonClasses (arg : Expr) (candidate : Ty) (confidence : Float) : CheckM Unit := do
  let alternatives := candidate.alternatives
  let single := alternatives.length == 1
  for (t, prob) in alternatives do
    match t with
    | .classObj _ | .builtin _ | .any | .undefined => pure ()
    | _ =>
      let identifier := arg.describe
      let shown ← display t
      report ⟨.subTypeError, identifier, errorProbability (if single then confidence else prob),
        "issubclass argument " ++ identifier ++ " is " ++ shown ++ ", not a class"⟩

def checkSubclassTest (args : List Expr) : CheckM Ty := do
  for arg in args do
    let t ← inner.expr arg
    let confidence ← confidenceOf arg
    let candidates : List Ty := match t with
      | .container c => if c.kind == .tuple then c.elts else [t]
      | _ => [t]
    for candidate in candidates do
      reportNonClasses arg candidate confidence
  return .bool

def grown? (receiver : Ty) (method : String) (args : CallArgs) : Option Ty := do
  let c ← receiver.asContainer?
  let grown ← match c.kind, method, args.positional with
    | .list, "append", [item] | .set, "add", [item] => some (c.pushKnown item)
    | .list, "insert", [_, item] => some (c.pushKnown item)
    | .list, "extend", [items] | .set, "update", [items] =>
      some ((items.elementType.alternatives.map (·.1)).foldl Container.pushKnown c)
    | .dict, "update", [.container other] =>
      if other.kind == .dict then some (c.extended other) else none
    | .dict, "setdefault", [key, value] => some (c.pushPair key value)
    | _, _, _ => none
  if (Ty.container grown).alike receiver then none else some (.container grown)

def checkPlainCall (func : Expr) (args : List Expr) (keywords : List (Keyword Expr)) :
    CheckM Ty := do
  match func.form with
  | .member value attr =>
    let receiver ← inner.expr value
    let callee ← readAttribute receiver attr (← confidenceOf value)
    let callArgs ← arguments inner args keywords
    let result ← callType inner callee callArgs
    if let some grown := grown? receiver attr callArgs then rebindContainer inner value grown
    return result
  | _ =>
    let callee ← inner.expr func
    callType inner callee (← arguments inner args keywords)

/-- A call. Tests of types are builtin, since their arguments are classes or names. -/
def checkCall (func : Expr) (args : List Expr) (keywords : List (Keyword Expr)) : CheckM Ty := do
  if (← namesBuiltin func "isinstance") || (← namesBuiltin func "hasattr") then
    let _ ← arguments inner args keywords
    return .bool
  if ← namesBuiltin func "issubclass" then return ← checkSubclassTest inner args
  if ← namesBuiltin func "type" then
    if let [arg] := args then
      match ← inner.expr arg with
      | .object id => return .classObj ((← getArena).classOf id)
      | _ => return .any
  checkPlainCall inner func args keywords

def checkDisplay (kind : ContainerKind) (elts : List Expr) : CheckM Ty := do
  let model ← elts.foldlM (fun (c : Container Ty) elt => do
    match elt.starred? with
    | some spread => return c.pushKnown (← inner.expr spread).elementType
    | none =>
      let t ← inner.expr elt
      return if kind == .tuple then c.push t else c.pushKnown t) { kind }
  return .container model

def checkDict (items : List (Option Expr × Expr)) : CheckM Ty := do
  let model ← items.foldlM (fun (c : Container Ty) item => do
    match item.1 with
    | some key =>
      let key ← inner.expr key
      return c.pushPair key (← inner.expr item.2)
    | none =>
      match ← inner.expr item.2 with
      | .container spread => return if spread.kind == .dict then c.extended spread else c
      | _ => return c) { kind := .dict }
  return .container model

/-- The result of a binary operator that no method defines. Operands without a result are reported
and give anything. -/
def plainResult (op : BinaryOp) (left right : Ty) (confidence : Float) : CheckM Ty := do
  let arena ← getArena
  match arena.combine op left right with
  | .ok t => return t
  | .error mismatch =>
    let signature := mismatch.signature arena
    report ⟨.typeError, signature, errorProbability confidence,
      "unsupported operand types for " ++ op.symbol ++ ": " ++ signature⟩
    return .any

/-- The result of a binary operator. Methods of objects come first, those of the left operand before
those of the right. -/
def binaryResult (op : BinaryOp) (left right : Ty) (confidence : Float) : CheckM Ty := do
  match ← callSpecialOf inner left op.method { positional := [right] } with
  | some result => return result
  | none =>
    match ← callSpecialOf inner right op.reflectedMethod { positional := [left] } with
    | some result => return result
    | none => plainResult op left right confidence

def unaryMethod? : UnaryOp → Option String
  | .not => none
  | .neg => some "__neg__"
  | .pos => some "__pos__"
  | .invert => some "__invert__"

def checkUnary (op : UnaryOp) (operand : Expr) : CheckM Ty := do
  let t ← inner.expr operand
  match unaryMethod? op with
  | some method => return (← callSpecialOf inner t method {}).getD (t.applyUnary op)
  | none => return t.applyUnary op

def checkCompare (left : Expr) (rest : List (CompareOp × Expr)) : CheckM Ty := do
  let first ← inner.expr left
  let _ ← rest.foldlM (fun (previous : Ty) (step : CompareOp × Expr) => do
    let right ← inner.expr step.2
    if step.1 == .isIn || step.1 == .notIn then
      let _ ← callSpecialOf inner right "__contains__" { positional := [previous] }
    return right) first
  return .bool

def literalIndex? (e : Expr) : Option Int :=
  match _h : e.form with
  | .number (.int value) => some value
  | .unaryOp .neg operand => (literalIndex? operand).map (- ·)
  | _ => none
termination_by sizeOf e
decreasing_by
  exact Expr.sizeOf_lt_of_mem_children (by simp [Expr.children, ExprForm.children, _h])

def sliced (t : Ty) : Ty :=
  match t with
  | .container c =>
    match c.kind with
    | .list => t
    | .tuple => .tupleOf []
    | .set | .dict => .any
  | .str | .bytes => t
  | .union u => .oneOf (u.elts.attach.map fun ⟨t, _⟩ => sliced t) (some u.probs)
  | _ => .any
termination_by sizeOf t
decreasing_by exact Ty.sizeOf_lt_of_mem_union ‹_›

/-- The element of a tuple at an index, counted from the end if it is negative; without an element
there it can be any of them. -/
def tupleItem (c : Container Ty) (index? : Option Int) : Ty :=
  match index? with
  | none => c.elementType
  | some index =>
    let place := if index < 0 then index + c.elts.length else index
    if place < 0 then c.elementType else c.elts[place.toNat]?.getD c.elementType

def itemType (container : Ty) (index : Expr) (indexType : Ty) : CheckM Ty := do
  match container with
  | .union u =>
    let results ← u.elts.attach.mapM fun ⟨t, _⟩ => itemType t index indexType
    return .oneOf results (some u.probs)
  | .container c =>
    match c.kind with
    | .list | .set => return c.elementType
    | .dict => return c.valueType
    | .tuple => return tupleItem c (literalIndex? index)
  | .str => return .str
  | .bytes => return .int
  | .object id =>
    return (← callSpecial inner id "__getitem__" { positional := [indexType] }).getD .any
  | _ => return .any
termination_by sizeOf container
decreasing_by exact Ty.sizeOf_lt_of_mem_union ‹_›

def checkSubscript (value index : Expr) : CheckM Ty := do
  let container ← inner.expr value
  let indexType ← inner.expr index
  if index.isSlice then return sliced container else itemType inner container index indexType

/-- Narrows a name to what a type test has shown. Alternatives that fit are kept as they are. -/
def narrowTo (subject classes : Expr) : CheckM Unit := do
  if let some name := subject.asName? then
    if let some narrowed ← instanceType? (← inner.expr classes) then
      let arena ← getArena
      let kept := ((← getScopes).find name).alternatives.filter fun (t, _) =>
        !t.isUnknown && arena.isSubtype t narrowed
      let t := if kept.isEmpty then narrowed
        else .oneOf (kept.map (·.1)) (some (kept.map (·.2)))
      modifyScopes (·.narrow name t)

/-- A condition. Names in type tests are narrowed, also in conjunctions of them, but not under other
operators. -/
def checkCondition (e : Expr) : CheckM Unit := do
  match _h : e.form with
  | .boolOp .and values => values.attach.forM fun ⟨value, _⟩ => checkCondition value
  | .call func [subject, classes] _ =>
    let isTest ← namesBuiltin func "isinstance"
    let _ ← inner.expr e
    if isTest then narrowTo inner subject classes
  | _ =>
    let _ ← inner.expr e
termination_by sizeOf e
decreasing_by
  exact Expr.sizeOf_lt_of_mem_children (by simpa [Expr.children, ExprForm.children, _h])

def inClauses {α : Type} (clauses : List (Clause Expr)) (body : CheckM α) : CheckM α :=
  inScope "<comprehension>" do
    for clause in clauses do
      let iterable ← inner.expr clause.iter
      let element ← iterationType inner iterable
      assign inner clause.target element 1.0 .fresh
      for condition in clause.conditions do
        checkCondition inner condition
    body

def checkComprehension (kind : ContainerKind) (elt : Expr) (clauses : List (Clause Expr)) :
    CheckM Ty := do
  let t ← inClauses inner clauses (inner.expr elt)
  return .container (Container.pushKnown { kind } t)

def checkDictComprehension (key value : Expr) (clauses : List (Clause Expr)) : CheckM Ty := do
  let (k, v) ← inClauses inner clauses do
    let k ← inner.expr key
    let v ← inner.expr value
    return (k, v)
  return .container (Container.pushPair { kind := .dict } k v)

def checkLambda (line : Nat) (params : Params Expr) (body : Expr) : CheckM Ty := do
  let signature ← signatureOf inner params
  let s ← get
  let id ← withArena (·.addFunction
    { name := "<lambda>", signature, body := .lambda body, captured := s.scopes.current
      hasReturn := true, alwaysReturns := true, reads := body.namesOnto []
      line, file := s.hub.cursor.file })
  return .function id

def recordYield (t : Ty) : CheckM Unit :=
  modify fun s =>
    match s.frames with
    | frame :: rest => { s with frames := { frame with yields := frame.yields ++ [t] } :: rest }
    | [] => s

end Parts

def evaluate (inner : Inner) (e : Expr) : CheckM Ty := do
  match e.form with
  | .name name =>
    match (← getScopes).lookup name with
    | some binding => return if binding.type.isUndefined then .any else binding.type
    | none => return .any
  | .number (.int _) => return .int
  | .number (.float _) => return .float
  | .number (.complex _) => return .complex
  | .str _ | .formatStr _ => return .str
  | .bytes _ => return .bytes
  | .bool _ => return .bool
  | .noneLiteral => return .none
  | .ellipsis => return .any
  | .list elts => checkDisplay inner .list elts
  | .tuple elts => checkDisplay inner .tuple elts
  | .set elts => checkDisplay inner .set elts
  | .dict items => checkDict inner items
  | .listComp elt clauses | .generator elt clauses => checkComprehension inner .list elt clauses
  | .setComp elt clauses => checkComprehension inner .set elt clauses
  | .dictComp key value clauses => checkDictComprehension inner key value clauses
  | .lambda params body => checkLambda inner e.line params body
  | .ifExp test body orelse =>
    checkCondition inner test
    let t ← inner.expr body
    return .oneOf [t, ← inner.expr orelse]
  | .boolOp _ values => return .oneOf (← values.mapM inner.expr)
  | .binOp left op right =>
    let l ← inner.expr left
    let r ← inner.expr right
    binaryResult inner op l r (lesser (← confidenceOf left) (← confidenceOf right))
  | .unaryOp op operand => checkUnary inner op operand
  | .compare left rest => checkCompare inner left rest
  | .call func args keywords => checkCall inner func args keywords
  | .member value attr =>
    let owner ← inner.expr value
    readAttribute owner attr (← confidenceOf value)
  | .subscript value index => checkSubscript inner value index
  | .slice lower upper step =>
    for part in lower.toList ++ upper.toList ++ step.toList do
      let _ ← inner.expr part
    return .any
  | .starred value | .await value => inner.expr value
  | .yield value =>
    recordYield (← match value with
      | some value => inner.expr value
      | none => pure .none)
    return .any
  | .yieldFrom value =>
    recordYield (← iterationType inner (← inner.expr value))
    return .any
  | .named target value =>
    let t ← inner.expr value
    assign inner target t (← confidenceOf value) .checked
    return t

/-- The type of an expression: one that is remembered and still holds, or the one that its parts
give, unless a hint says more. -/
def exprOver (inner : Inner) (e : Expr) : CheckM Ty := do
  let file := e.span.start.file
  let before ← stamp
  let remembered ← modifyGet fun s =>
    let (t, memo) := s.memo.get file e.id before
    (t, { s with memo })
  match remembered with
  | some t => return t
  | none =>
    let inferred ← evaluate inner e
    let t := match ← hint? e with
      | some (hinted, _) => if hinted.isUnknown then inferred else hinted
      | none => inferred
    let after ← stamp
    modify fun s => { s with memo := s.memo.store file e.id t after }
    return t

end Credence.Check

import Credence.Tree.Stmt

namespace Credence

def addName (names : List String) (name : String) : List String :=
  if names.contains name then names else names ++ [name]

namespace Expr

def dottedName? (e : Expr) : Option String :=
  match _h : e.form with
  | .name name => some name
  | .member value attr => (value.dottedName?).map fun base => base ++ "." ++ attr
  | _ => none
termination_by sizeOf e
decreasing_by exact sizeOf_lt_of_mem_children (by simp [children, ExprForm.children, _h])

/-- Adds the names that occur in an expression, each once, in order of occurrence. -/
def namesOnto (names : List String) (e : Expr) : List String :=
  let own := (e.asName?.map (addName names)).getD names
  e.children.attach.foldl (fun names ⟨c, _⟩ => namesOnto names c) own
termination_by sizeOf e
decreasing_by exact sizeOf_lt_of_mem_children ‹_›

def containsYield (e : Expr) : Bool :=
  match e.form with
  | .yield _ | .yieldFrom _ => true
  | .lambda _ _ => false
  | _ => e.children.attach.any fun ⟨c, _⟩ => c.containsYield
termination_by sizeOf e
decreasing_by exact sizeOf_lt_of_mem_children ‹_›

def describe (e : Expr) : String :=
  match e.dottedName? with
  | some name => name
  | none =>
    match _h : e.form with
    | .call func _ _ => func.describe ++ "()"
    | .subscript value _ => value.describe ++ "[]"
    | .number _ => "<number>"
    | .str _ | .formatStr _ => "<str>"
    | .list _ => "<list>"
    | .tuple _ => "<tuple>"
    | .dict _ => "<dict>"
    | _ => "<expr>"
termination_by sizeOf e
decreasing_by
  all_goals exact sizeOf_lt_of_mem_children (by simp [children, ExprForm.children, _h])

end Expr

def namesUsedOnto (names : List String) : List Stmt → List String
  | [] => names
  | s :: rest =>
    let own := s.expressions.foldl Expr.namesOnto names
    let nested := s.blocks.attach.foldl (fun names ⟨b, _⟩ => namesUsedOnto names b) own
    namesUsedOnto (namesUsedOnto nested s.definitionBody) rest
termination_by body => sizeOf body
decreasing_by
  · have := Stmt.sizeOf_lt_of_mem_blocks ‹_›
    simp only [List.cons.sizeOf_spec]
    omega
  · have := Stmt.sizeOf_definitionBody_lt s
    simp only [List.cons.sizeOf_spec]
    omega
  · simp only [List.cons.sizeOf_spec]
    omega

def namesUsed (body : List Stmt) : List String :=
  namesUsedOnto [] body

/-- A stub is a lone ellipsis, string statements aside. -/
def isStub (body : List Stmt) : Bool :=
  match body.filter fun s => !isText s with
  | [s] =>
    match s.form with
    | .expr e => match e.form with
      | .ellipsis => true
      | _ => false
    | _ => false
  | _ => false
where
  isText (s : Stmt) : Bool :=
    match s.form with
    | .expr e => match e.form with
      | .str _ => true
      | _ => false
    | _ => false

def FunctionDef.hasDecorator (definition : FunctionDef Stmt) (name : String) : Bool :=
  definition.decorators.any fun d => d.dottedName? == some name

end Credence

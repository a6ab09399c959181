import Credence.Tree.Expr

namespace Credence

structure Handler (σ : Type) where
  type : Option Expr
  name : Option String
  body : List σ
  span : Span

structure WithItem where
  context : Expr
  vars : Option Expr

structure Alias where
  name : String
  asname : Option String

/-- The name that an import binds: the one after `as`, or the first component. -/
def Alias.boundName (a : Alias) : String :=
  a.asname.getD (String.ofList (a.name.toList.takeWhile (· != '.')))

structure FunctionDef (σ : Type) where
  name : String
  params : Params Expr
  body : List σ
  returns : Option Expr
  decorators : List Expr
  isAsync : Bool
  span : Span

structure ClassDef (σ : Type) where
  name : String
  bases : List Expr
  keywords : List (Keyword Expr)
  body : List σ
  decorators : List Expr
  span : Span

/-- The forms of a statement over sub-statements `σ`. -/
inductive StmtForm (σ : Type) where
  | expr (value : Expr)
  | assign (targets : List Expr) (value : Expr)
  | ascribe (target ascription : Expr) (value : Option Expr)
  | augAssign (target : Expr) (op : BinaryOp) (value : Expr)
  | ret (value : Option Expr)
  | pass
  | brk
  | cont
  | ifElse (test : Expr) (body orelse : List σ)
  | whileLoop (test : Expr) (body orelse : List σ)
  | forLoop (target iter : Expr) (body orelse : List σ) (isAsync : Bool)
  | tryExcept (body : List σ) (handlers : List (Handler σ)) (orelse finalbody : List σ)
  | withItems (items : List WithItem) (body : List σ) (isAsync : Bool)
  | functionDef (definition : FunctionDef σ)
  | classDef (definition : ClassDef σ)
  | importModules (names : List Alias)
  | importFrom (module : String) (names : List Alias) (level : Nat)
  | globalNames (names : List String)
  | nonlocalNames (names : List String)
  | delete (targets : List Expr)
  | assert (test : Expr) (msg : Option Expr)
  | raise (exc cause : Option Expr)

structure Stmt where
  id : Nat
  form : StmtForm Stmt
  span : Span

structure Module where
  body : List Stmt
  file : String
  span : Span

namespace StmtForm

variable {σ : Type}

/-- Expressions that belong to the statement itself and not to a block in it. A definition has its
decorators, its defaults and its bases. -/
def expressions : StmtForm σ → List Expr
  | expr value => [value]
  | assign targets value => targets ++ [value]
  | ascribe target ascription value => target :: ascription :: value.toList
  | augAssign target _ value => [target, value]
  | ret value => value.toList
  | ifElse test _ _ | whileLoop test _ _ => [test]
  | forLoop target iter _ _ _ => [target, iter]
  | tryExcept _ handlers _ _ => handlers.filterMap (·.type)
  | withItems items _ _ => items.flatMap fun item => item.context :: item.vars.toList
  | functionDef definition => definition.decorators ++ definition.params.defaultExprs
  | classDef definition => definition.decorators ++ definition.bases
  | delete targets => targets
  | assert test msg => test :: msg.toList
  | raise exc cause => exc.toList ++ cause.toList
  | pass | brk | cont | importModules _ | importFrom _ _ _ | globalNames _ | nonlocalNames _ => []

/-- Blocks that run as part of the same function; the bodies of definitions do not. -/
def blocks : StmtForm σ → List (List σ)
  | ifElse _ body orelse | whileLoop _ body orelse | forLoop _ _ body orelse _ => [body, orelse]
  | tryExcept body handlers orelse finalbody =>
    body :: handlers.map (·.body) ++ [orelse, finalbody]
  | withItems _ body _ => [body]
  | _ => []

def definitionBody : StmtForm σ → List σ
  | functionDef definition => definition.body
  | classDef definition => definition.body
  | _ => []

section Size

variable [SizeOf σ]

theorem sizeOf_lt_of_mem_blocks {f : StmtForm σ} {b : List σ} (h : b ∈ f.blocks) :
    sizeOf b < sizeOf f := by
  cases f <;> simp only [blocks, List.mem_cons, List.mem_append, List.not_mem_nil, or_false] at h
  case ifElse | whileLoop | forLoop | withItems =>
    simp only [ifElse.sizeOf_spec, whileLoop.sizeOf_spec, forLoop.sizeOf_spec,
      withItems.sizeOf_spec]
    rcases h with rfl | rfl <;> omega
  case tryExcept body handlers orelse finalbody =>
    simp only [tryExcept.sizeOf_spec]
    rcases h with (rfl | h) | rfl | rfl
    · omega
    · obtain ⟨handler, hm, rfl⟩ := List.mem_map.1 h
      have := List.sizeOf_lt_of_mem hm
      cases handler
      simp only [Handler.mk.sizeOf_spec] at *
      omega
    · omega
    · omega

theorem sizeOf_definitionBody_le (f : StmtForm σ) : sizeOf f.definitionBody ≤ sizeOf f := by
  cases f <;> simp only [definitionBody]
  case functionDef definition =>
    cases definition
    simp only [functionDef.sizeOf_spec, FunctionDef.mk.sizeOf_spec]
    omega
  case classDef definition =>
    cases definition
    simp only [classDef.sizeOf_spec, ClassDef.mk.sizeOf_spec]
    omega
  all_goals simp <;> omega

end Size

end StmtForm

namespace Stmt

def line (s : Stmt) : Nat :=
  s.span.line

def expressions (s : Stmt) : List Expr :=
  s.form.expressions

def blocks (s : Stmt) : List (List Stmt) :=
  s.form.blocks

def definitionBody (s : Stmt) : List Stmt :=
  s.form.definitionBody

theorem sizeOf_lt_of_mem_blocks {s : Stmt} {b : List Stmt} (h : b ∈ s.blocks) :
    sizeOf b < sizeOf s := by
  have := StmtForm.sizeOf_lt_of_mem_blocks h
  cases s
  simp only [Stmt.mk.sizeOf_spec] at *
  omega

theorem sizeOf_definitionBody_lt (s : Stmt) : sizeOf s.definitionBody < sizeOf s := by
  have := StmtForm.sizeOf_definitionBody_le s.form
  cases s
  simp only [definitionBody, Stmt.mk.sizeOf_spec] at *
  omega

end Stmt

end Credence

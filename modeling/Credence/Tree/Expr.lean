import Credence.Operator
import Credence.Source.Position

namespace Credence

structure Clause (ε : Type) where
  target : ε
  iter : ε
  conditions : List ε
  isAsync : Bool

structure Keyword (ε : Type) where
  arg : Option String
  value : ε

structure Param (ε : Type) where
  name : String
  ascription : Option ε
  span : Span

/-- The parameters of a function. Defaults belong to the last positional parameters; each
keyword-only parameter has a place for its own. -/
structure Params (ε : Type) where
  args : List (Param ε) := []
  defaults : List ε := []
  vararg : Option (Param ε) := none
  kwonly : List (Param ε) := []
  kwDefaults : List (Option ε) := []
  kwarg : Option (Param ε) := none

inductive Number where
  | int (value : Nat)
  | float (value : Float)
  | complex (value : Float)

/-- The forms of an expression over sub-expressions `ε`. -/
inductive ExprForm (ε : Type) where
  | name (name : String)
  | number (value : Number)
  | str (value : String)
  | bytes (value : String)
  | formatStr (value : String)
  | bool (value : Bool)
  | noneLiteral
  | ellipsis
  | list (elts : List ε)
  | tuple (elts : List ε)
  | set (elts : List ε)
  | dict (items : List (Option ε × ε))
  | listComp (elt : ε) (clauses : List (Clause ε))
  | setComp (elt : ε) (clauses : List (Clause ε))
  | generator (elt : ε) (clauses : List (Clause ε))
  | dictComp (key value : ε) (clauses : List (Clause ε))
  | lambda (params : Params ε) (body : ε)
  | ifExp (test body orelse : ε)
  | boolOp (op : BoolOp) (values : List ε)
  | binOp (left : ε) (op : BinaryOp) (right : ε)
  | unaryOp (op : UnaryOp) (operand : ε)
  | compare (left : ε) (rest : List (CompareOp × ε))
  | call (func : ε) (args : List ε) (keywords : List (Keyword ε))
  | member (value : ε) (attr : String)
  | subscript (value index : ε)
  | slice (lower upper step : Option ε)
  | starred (value : ε)
  | await (value : ε)
  | yield (value : Option ε)
  | yieldFrom (value : ε)
  | named (target value : ε)

/-- An expression; no two nodes of a tree share their identity. -/
structure Expr where
  id : Nat
  form : ExprForm Expr
  span : Span

instance : Inhabited Expr :=
  ⟨⟨0, .ellipsis, default⟩⟩

namespace Clause

variable {ε : Type}

def parts (c : Clause ε) : List ε :=
  c.target :: c.iter :: c.conditions

theorem sizeOf_lt_of_mem_parts [SizeOf ε] {c : Clause ε} {e : ε} (h : e ∈ c.parts) :
    sizeOf e < sizeOf c := by
  cases c with
  | mk target iter conditions isAsync =>
    simp only [parts, List.mem_cons] at h
    simp only [Clause.mk.sizeOf_spec]
    rcases h with rfl | rfl | h
    · omega
    · omega
    · have := List.sizeOf_lt_of_mem h
      omega

end Clause

namespace Params

variable {ε : Type}

def all (ps : Params ε) : List (Param ε) :=
  ps.args ++ ps.vararg.toList ++ ps.kwonly ++ ps.kwarg.toList

def defaultFor? (ps : Params ε) (index : Nat) : Option ε :=
  let first := ps.args.length - ps.defaults.length
  if first ≤ index then ps.defaults[index - first]? else none

def defaultExprs (ps : Params ε) : List ε :=
  ps.defaults ++ ps.kwDefaults.filterMap id

end Params

namespace ExprForm

variable {ε : Type}

/-- Sub-expressions in source order; the body of a lambda is one, its annotations are not. -/
def children : ExprForm ε → List ε
  | name _ | number _ | str _ | bytes _ | formatStr _ | bool _ | noneLiteral | ellipsis => []
  | list elts | tuple elts | set elts => elts
  | dict items => items.flatMap fun item => item.1.toList ++ [item.2]
  | listComp elt clauses | setComp elt clauses | generator elt clauses =>
    elt :: clauses.flatMap Clause.parts
  | dictComp key value clauses => key :: value :: clauses.flatMap Clause.parts
  | lambda params body => params.defaultExprs ++ [body]
  | ifExp test body orelse => [test, body, orelse]
  | boolOp _ values => values
  | binOp left _ right => [left, right]
  | unaryOp _ operand => [operand]
  | compare left rest => left :: rest.map (·.2)
  | call func args keywords => func :: args ++ keywords.map (·.value)
  | member value _ => [value]
  | subscript value index => [value, index]
  | slice lower upper step => lower.toList ++ upper.toList ++ step.toList
  | starred value | await value | yieldFrom value => [value]
  | yield value => value.toList
  | named target value => [target, value]

section Size

variable [SizeOf ε]

private theorem sizeOf_toList_lt {o : Option ε} {e : ε} (h : e ∈ o.toList) :
    sizeOf e < sizeOf o := by
  cases o with
  | none => simp at h
  | some a =>
    simp only [Option.toList_some, List.mem_singleton] at h
    subst h
    simp

private theorem sizeOf_parts_lt {clauses : List (Clause ε)} {e : ε}
    (h : e ∈ clauses.flatMap Clause.parts) : sizeOf e < sizeOf clauses := by
  obtain ⟨c, hc, he⟩ := List.mem_flatMap.1 h
  have := List.sizeOf_lt_of_mem hc
  have := Clause.sizeOf_lt_of_mem_parts he
  omega

private theorem sizeOf_items_lt {items : List (Option ε × ε)} {e : ε}
    (h : e ∈ items.flatMap fun item => item.1.toList ++ [item.2]) : sizeOf e < sizeOf items := by
  obtain ⟨⟨key, value⟩, hi, he⟩ := List.mem_flatMap.1 h
  have := List.sizeOf_lt_of_mem hi
  simp only [Prod.mk.sizeOf_spec] at this
  rcases List.mem_append.1 he with he | he
  · have : sizeOf e < sizeOf key := sizeOf_toList_lt he
    omega
  · simp only [List.mem_singleton] at he
    subst he
    omega

private theorem sizeOf_defaults_lt {params : Params ε} {e : ε}
    (h : e ∈ params.defaultExprs) : sizeOf e < sizeOf params := by
  cases params with
  | mk args defaults vararg kwonly kwDefaults kwarg =>
    simp only [Params.mk.sizeOf_spec]
    rcases List.mem_append.1 h with h | h
    · have : sizeOf e < sizeOf defaults := List.sizeOf_lt_of_mem h
      omega
    · obtain ⟨o, ho, he⟩ := List.mem_filterMap.1 h
      have he : o = some e := he
      subst he
      have : sizeOf (some e) < sizeOf kwDefaults := List.sizeOf_lt_of_mem ho
      simp only [Option.some.sizeOf_spec] at this
      omega

private theorem sizeOf_rest_lt {rest : List (CompareOp × ε)} {e : ε}
    (h : e ∈ rest.map (·.2)) : sizeOf e < sizeOf rest := by
  obtain ⟨⟨op, value⟩, hr, rfl⟩ := List.mem_map.1 h
  have := List.sizeOf_lt_of_mem hr
  simp only [Prod.mk.sizeOf_spec] at this ⊢
  omega

private theorem sizeOf_keywords_lt {keywords : List (Keyword ε)} {e : ε}
    (h : e ∈ keywords.map (·.value)) : sizeOf e < sizeOf keywords := by
  obtain ⟨⟨arg, value⟩, hk, rfl⟩ := List.mem_map.1 h
  have := List.sizeOf_lt_of_mem hk
  simp only [Keyword.mk.sizeOf_spec] at this ⊢
  omega

theorem sizeOf_lt_of_mem_children {f : ExprForm ε} {e : ε} (h : e ∈ f.children) :
    sizeOf e < sizeOf f := by
  cases f <;> simp only [children, List.mem_cons, List.mem_append, List.not_mem_nil, or_false] at h
  case list elts | tuple elts | set elts | boolOp op elts =>
    have := List.sizeOf_lt_of_mem h
    simp only [list.sizeOf_spec, tuple.sizeOf_spec, set.sizeOf_spec, boolOp.sizeOf_spec]
    omega
  case dict items =>
    have := sizeOf_items_lt h
    simp only [dict.sizeOf_spec]
    omega
  case listComp elt clauses | setComp elt clauses | generator elt clauses =>
    rcases h with rfl | h
    · simp only [listComp.sizeOf_spec, setComp.sizeOf_spec, generator.sizeOf_spec]
      omega
    · have := sizeOf_parts_lt h
      simp only [listComp.sizeOf_spec, setComp.sizeOf_spec, generator.sizeOf_spec]
      omega
  case dictComp key value clauses =>
    rcases h with rfl | rfl | h
    · simp only [dictComp.sizeOf_spec]
      omega
    · simp only [dictComp.sizeOf_spec]
      omega
    · have := sizeOf_parts_lt h
      simp only [dictComp.sizeOf_spec]
      omega
  case lambda params body =>
    rcases h with h | rfl
    · have := sizeOf_defaults_lt h
      simp only [lambda.sizeOf_spec]
      omega
    · simp only [lambda.sizeOf_spec]
      omega
  case compare left rest =>
    rcases h with rfl | h
    · simp only [compare.sizeOf_spec]
      omega
    · have := sizeOf_rest_lt h
      simp only [compare.sizeOf_spec]
      omega
  case call func args keywords =>
    rcases h with (rfl | h) | h
    · simp only [call.sizeOf_spec]
      omega
    · have := List.sizeOf_lt_of_mem h
      simp only [call.sizeOf_spec]
      omega
    · have := sizeOf_keywords_lt h
      simp only [call.sizeOf_spec]
      omega
  case slice lower upper step =>
    rcases h with (h | h) | h <;>
    · have := sizeOf_toList_lt h
      simp only [slice.sizeOf_spec]
      omega
  case yield value =>
    have := sizeOf_toList_lt h
    simp only [yield.sizeOf_spec]
    omega
  case ifExp | binOp | unaryOp | member | subscript | starred | await | yieldFrom | named =>
    simp only [ifExp.sizeOf_spec, binOp.sizeOf_spec, unaryOp.sizeOf_spec, member.sizeOf_spec,
      subscript.sizeOf_spec, starred.sizeOf_spec, await.sizeOf_spec, yieldFrom.sizeOf_spec,
      named.sizeOf_spec]
    rcases h with rfl | rfl | rfl <;> omega

end Size

end ExprForm

namespace Expr

def children (e : Expr) : List Expr :=
  e.form.children

theorem sizeOf_lt_of_mem_children {e c : Expr} (h : c ∈ e.children) : sizeOf c < sizeOf e := by
  have := ExprForm.sizeOf_lt_of_mem_children h
  cases e
  simp only [Expr.mk.sizeOf_spec] at *
  omega

def line (e : Expr) : Nat :=
  e.span.line

def asName? (e : Expr) : Option String :=
  match e.form with
  | .name name => some name
  | _ => none

def starred? (e : Expr) : Option Expr :=
  match e.form with
  | .starred inner => some inner
  | _ => none

def isStarred (e : Expr) : Bool :=
  e.starred?.isSome

def unstarred (e : Expr) : Expr :=
  e.starred?.getD e

theorem sizeOf_unstarred_le (e : Expr) : sizeOf e.unstarred ≤ sizeOf e := by
  unfold unstarred starred?
  split
  · rename_i inner h
    exact Nat.le_of_lt (sizeOf_lt_of_mem_children (by simp [children, ExprForm.children, h]))
  · exact Nat.le_refl _

def isEllipsis (e : Expr) : Bool :=
  match e.form with
  | .ellipsis => true
  | _ => false

def isSlice (e : Expr) : Bool :=
  match e.form with
  | .slice _ _ _ => true
  | _ => false

end Expr

end Credence

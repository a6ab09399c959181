import Credence.Arena.Display
import Credence.Arena.Subtype

namespace Credence

structure Mismatch where
  op : BinaryOp
  left : Ty
  right : Ty

def Mismatch.signature (m : Mismatch) (a : Arena) : String :=
  a.display m.left ++ " " ++ m.op.symbol ++ " " ++ a.display m.right

/-- The result of an operator on scalars, if they have one. Numbers give the wider of the two, and
integers divide to a float; texts and bytes are formatted, repeated and joined. -/
def Prim.combine? (op : BinaryOp) (left right : Prim) : Option Ty :=
  match left.rank?, right.rank? with
  | some i, some j =>
    let wider := (if j ≤ i then left else right).promote
    if op == .div && wider == .int then some .float else some (.prim wider)
  | _, _ =>
    let counts (p : Prim) := p == .int || p == .bool
    match op with
    | .mod => if left.isSequence then some (.prim left) else none
    | .mult =>
      if left.isSequence && counts right then some (.prim left)
      else if counts left && right.isSequence then some (.prim right)
      else none
    | .add => if left.isSequence && left == right then some (.prim left) else none
    | _ => none

def BinaryOp.isBitwise : BinaryOp → Bool
  | .bitAnd | .bitOr | .bitXor | .shiftLeft | .shiftRight | .matMult => true
  | _ => false

def Container.isSequence (c : Container Ty) : Bool :=
  c.kind == .list || c.kind == .tuple

namespace Arena

/-- Types of which one can stand for the other give the left one. -/
def combineConsistent (a : Arena) (op : BinaryOp) (left right : Ty) : Except Mismatch Ty :=
  if a.isConsistent left right then .ok left else .error ⟨op, left, right⟩

def hasUnknownBase (a : Arena) (t : Ty) : Bool :=
  match t with
  | .object id => (a.classAt (a.classOf id)).hasUnknownBase
  | _ => false

def combineSingle (a : Arena) (op : BinaryOp) (left right : Ty) : Except Mismatch Ty :=
  if left.isNone || right.isNone || op.isBitwise then .ok .any
  else
    let otherwise :=
      if a.hasUnknownBase left || a.hasUnknownBase right then .ok .any
      else a.combineConsistent op left right
    match left, right with
    | .prim p, .prim q =>
      match Prim.combine? op p q with
      | some t => .ok t
      | none => a.combineConsistent op left right
    | .prim p, .container c =>
      if op == .mod && p.isSequence then .ok left
      else if op == .mult && (p == .int || p == .bool) && c.isSequence then .ok right
      else otherwise
    | .prim p, _ => if op == .mod && p.isSequence then .ok left else otherwise
    | .container c, .prim p =>
      if op == .mult && (p == .int || p == .bool) && c.isSequence then .ok left else otherwise
    | .container c, .container d =>
      if op == .add && c.kind == d.kind && c.isSequence then .ok (.container (c.extended d))
      else otherwise
    | _, _ => otherwise

/-- The result of an operator. Unions give a result for each pair of alternatives that has one, and
fail only if none has. -/
def combine (a : Arena) (op : BinaryOp) (left right : Ty) : Except Mismatch Ty :=
  if left.isUnknown || right.isUnknown then .ok .any
  else if _h : left.isUnion || right.isUnion then
    let results := left.alternatives.attach.flatMap fun ⟨(l, p), _⟩ =>
      right.alternatives.attach.filterMap fun ⟨(r, q), _⟩ =>
        match a.combine op l r with
        | .ok t => some (t, p * q)
        | .error _ => none
    if results.isEmpty then .error ⟨op, left, right⟩
    else .ok (.oneOf (results.map (·.1)) (some (results.map (·.2))))
  else a.combineSingle op left right
termination_by sizeOf left + sizeOf right
decreasing_by
  rename_i hl hr
  have hl := Ty.sizeOf_of_mem_alternatives hl
  have hr := Ty.sizeOf_of_mem_alternatives hr
  rcases Bool.or_eq_true _ _ ▸ _h with h | h
  · have := hl.2 h
    have := hr.1
    simp only at *
    omega
  · have := hl.1
    have := hr.2 h
    simp only at *
    omega

end Arena

def Ty.applyUnary (op : UnaryOp) (t : Ty) : Ty :=
  if op == .not then .bool
  else
    match t with
    | .union u => .oneOf (u.elts.attach.map fun ⟨t, _⟩ => t.applyUnary op) (some u.probs)
    | .prim p =>
      if !p.isNumeric then .any
      else if op == .invert && p != .int && p != .bool then .any
      else .prim p.promote
    | _ => .any
termination_by sizeOf t
decreasing_by exact Ty.sizeOf_lt_of_mem_union ‹_›

end Credence

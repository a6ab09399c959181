import Credence.Tree.Names

namespace Credence

structure ReturnFacts where
  hasReturn : Bool
  alwaysReturns : Bool
  isGenerator : Bool
deriving DecidableEq, Inhabited

def hasReturn : List Stmt → Bool
  | [] => false
  | s :: rest =>
    (match s.form with
      | .ret _ => true
      | _ => s.blocks.attach.any fun ⟨b, _⟩ => hasReturn b) || hasReturn rest
termination_by body => sizeOf body
decreasing_by
  · have := Stmt.sizeOf_lt_of_mem_blocks ‹_›
    simp only [List.cons.sizeOf_spec]
    omega
  · simp only [List.cons.sizeOf_spec]
    omega

/-- A `break` that leaves the loop around the body. -/
def breaks : List Stmt → Bool
  | [] => false
  | s :: rest =>
    (match s.form with
      | .brk => true
      | .whileLoop _ _ _ | .forLoop _ _ _ _ _ => false
      | _ => s.blocks.attach.any fun ⟨b, _⟩ => breaks b) || breaks rest
termination_by body => sizeOf body
decreasing_by
  · have := Stmt.sizeOf_lt_of_mem_blocks ‹_›
    simp only [List.cons.sizeOf_spec]
    omega
  · simp only [List.cons.sizeOf_spec]
    omega

def Expr.isTrue (e : Expr) : Bool :=
  match e.form with
  | .bool b => b
  | _ => false

/-- Some statement of the body leaves the function on every path through it. -/
def alwaysReturns : List Stmt → Bool
  | [] => false
  | s :: rest =>
    (match _h : s.form with
      | .ret _ | .raise _ _ => true
      | .ifElse _ body orelse => !orelse.isEmpty && alwaysReturns body && alwaysReturns orelse
      | .tryExcept body handlers orelse finalbody =>
        alwaysReturns finalbody ||
          ((alwaysReturns body || alwaysReturns orelse) &&
            (handlers.map (·.body)).attach.all fun ⟨b, _⟩ => alwaysReturns b)
      | .withItems _ body _ => alwaysReturns body
      | .whileLoop test body _ => test.isTrue && !breaks body
      | _ => false) || alwaysReturns rest
termination_by body => sizeOf body
decreasing_by
  all_goals first
    | (simp only [List.cons.sizeOf_spec]; omega)
    | (refine Nat.lt_of_lt_of_le (Stmt.sizeOf_lt_of_mem_blocks (s := s) ?_)
         (by simp only [List.cons.sizeOf_spec]; omega)
       simp_all [Stmt.blocks, StmtForm.blocks])

def isGenerator : List Stmt → Bool
  | [] => false
  | s :: rest =>
    (match s.form with
      | .functionDef _ | .classDef _ => false
      | _ => s.expressions.any Expr.containsYield ||
        s.blocks.attach.any fun ⟨b, _⟩ => isGenerator b) || isGenerator rest
termination_by body => sizeOf body
decreasing_by
  · have := Stmt.sizeOf_lt_of_mem_blocks ‹_›
    simp only [List.cons.sizeOf_spec]
    omega
  · simp only [List.cons.sizeOf_spec]
    omega

def ReturnFacts.ofBody (body : List Stmt) : ReturnFacts :=
  ⟨Credence.hasReturn body, Credence.alwaysReturns body, Credence.isGenerator body⟩

end Credence

import Credence.Tree.Names

namespace Credence

/-- The weight of a node by itself: one, and one more for each character of its text. -/
def ExprForm.own {ε : Type} : ExprForm ε → Nat
  | .str text | .bytes text | .formatStr text => text.length + 1
  | _ => 1

theorem ExprForm.own_pos {ε : Type} (f : ExprForm ε) : 0 < f.own := by
  cases f <;> exact Nat.succ_pos _

def Expr.weight (e : Expr) : Nat :=
  e.children.attach.foldl (fun total ⟨c, _⟩ => total + c.weight) e.form.own
termination_by sizeOf e
decreasing_by exact sizeOf_lt_of_mem_children ‹_›

def Stmt.keywordValues (s : Stmt) : List Expr :=
  match s.form with
  | .classDef definition => definition.keywords.map (·.value)
  | _ => []

/-- The number of nodes in a body, bodies of definitions in it included. -/
def bodyWeight : List Stmt → Nat
  | [] => 0
  | s :: rest =>
    let own := (s.expressions ++ s.keywordValues).foldl (fun total e => total + e.weight) 1
    let blocks := s.blocks.attach.foldl (fun total ⟨b, _⟩ => total + bodyWeight b) own
    blocks + bodyWeight s.definitionBody + bodyWeight rest
termination_by body => sizeOf body
decreasing_by
  · have := Stmt.sizeOf_lt_of_mem_blocks ‹_›
    simp only [List.cons.sizeOf_spec]
    omega
  · have := Stmt.sizeOf_definitionBody_lt s
    simp only [List.cons.sizeOf_spec]
    omega
  · simp only [List.cons.sizeOf_spec]
    omega

end Credence

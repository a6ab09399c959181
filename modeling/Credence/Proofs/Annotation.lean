import Credence.Proofs.Cost
import Credence.Proofs.Lawful

namespace Credence

open Check

namespace Discipline

variable {D : Discipline} {c : Context}

theorem namedAscription
    (hfind : ∀ (s : Scopes) (name : String),
      D.Holds c (CheckM.withArena fun a => s.findDotted a name) (CheckM.withArena fun a => s.findDotted a name))
    (hstand : ∀ id, D.Holds c (CheckM.standIn id) (CheckM.standIn id)) (name : String) :
    D.Holds c (Check.namedAscription name) (Check.namedAscription name) := by
  unfold Check.namedAscription
  simp only
  split
  · exact .pure _
  · exact .pure _
  · refine Basic.getScopes.bind fun scopes => (hfind scopes name).bind fun t => ?_
    cases t with
    | classObj id => exact hstand id
    | _ => exact .pure _

variable {sub other : Expr → CheckM Ty}

theorem firstAscription {arguments : List Expr} (h : ∀ e ∈ arguments, D.Holds c (sub e) (other e)) :
    D.Holds c (Check.firstAscription sub arguments) (Check.firstAscription other arguments) := by
  cases arguments with
  | nil => exact .pure _
  | cons argument rest => exact h argument (by simp)

theorem genericAscription (name : String) {arguments : List Expr}
    (h : ∀ e ∈ arguments, D.Holds c (sub e) (other e)) :
    D.Holds c (Check.genericAscription sub name arguments)
      (Check.genericAscription other name arguments) := by
  have hfirst := firstAscription h
  unfold Check.genericAscription
  simp only
  split
  · exact hfirst.bind fun t => .pure _
  · exact (Holds.mapM h).bind fun ts => .pure _
  · refine hfirst.bind fun t => ?_
    cases t with
    | object id => exact Basic.getArena.bind fun arena => .pure _
    | _ => exact .pure _
  · refine hfirst.bind fun t => ?_
    cases t with
    | object id => exact Basic.getArena.bind fun arena => .pure _
    | _ => exact .pure _
  · exact hfirst
  · exact hfirst
  · exact hfirst
  · split
    · refine hfirst.bind fun key => Holds.bind (firstAscription fun e he => ?_) fun value => .pure _
      exact h e (List.mem_of_mem_tail he)
    · refine Holds.bind (.mapM fun e he => h e ?_) fun elts => .pure _
      exact (List.mem_filter.1 he).1
    · exact hfirst.bind fun t => .pure _
    · exact .pure _

/-- The expression that a text is, if it is one. -/
def TextIs (text : String) (e : Expr) : Prop :=
  ∃ m s rest, Module.ofSource text "<annotation>" = .ok m ∧ m.body = s :: rest ∧ s.form = .expr e

theorem weight_lt_of_textIs {text : String} {e : Expr} (h : TextIs text e) :
    e.weight < text.length + 1 := by
  obtain ⟨m, s, rest, hsource, hbody, hform⟩ := h
  exact Nat.lt_succ_of_le (weight_le_of_ofSource hsource (by rw [hbody]; simp) hform)

theorem textAscription {text : String} (h : ∀ e, TextIs text e → D.Holds c (sub e) (other e)) :
    D.Holds c (Check.textAscription sub text) (Check.textAscription other text) := by
  unfold Check.textAscription
  split
  · rename_i hsource
    exact absurd hsource (ofSource_ne_exhausted text _)
  · exact .pure _
  · rename_i m hsource
    split
    · rename_i s rest hbody
      split
      · rename_i e hform
        exact h e ⟨m, s, rest, hsource, hbody, hform⟩
      · exact .pure _
    · exact .pure _

section

variable (hnamed : ∀ name, D.Holds c (Check.namedAscription name) (Check.namedAscription name))
include hnamed

theorem ascriptionOver {e : Expr} (hchild : ∀ k ∈ e.children, D.Holds c (sub k) (other k))
    (hitem : ∀ k ∈ e.children, ∀ i ∈ k.children, D.Holds c (sub i) (other i))
    (htext : ∀ text, e.form = .str text → D.Holds c (Check.textAscription sub text)
      (Check.textAscription other text)) :
    D.Holds c (Check.ascriptionOver sub e) (Check.ascriptionOver other e) := by
  unfold Check.ascriptionOver
  unfold Expr.children at hchild hitem
  cases hform : e.form with
  | str text => exact htext text hform
  | name id =>
    simp only
    split
    · exact hnamed _
    · exact .pure _
  | member value name =>
    simp only
    split
    · exact hnamed _
    · exact .pure _
  | subscript value index =>
    rw [hform] at hchild hitem
    have hindex : index ∈ (ExprForm.subscript value index).children := by simp [ExprForm.children]
    simp only
    split
    · refine genericAscription _ fun k hk => ?_
      split at hk
      · rename_i elts htuple
        refine hitem index hindex k ?_
        rw [htuple]
        simpa [ExprForm.children] using hk
      · rw [List.mem_singleton.1 hk]
        exact hchild index hindex
    · exact .pure _
  | binOp left op right =>
    rw [hform] at hchild
    cases op with
    | bitOr =>
      refine (hchild left (by simp [ExprForm.children])).bind fun l => ?_
      exact (hchild right (by simp [ExprForm.children])).bind fun r => .pure _
    | _ => exact .pure _
  | _ => exact .pure _

theorem ascriptionOver_of_weight {e : Expr}
    (h : ∀ k : Expr, k.weight < e.weight → D.Holds c (sub k) (other k)) :
    D.Holds c (Check.ascriptionOver sub e) (Check.ascriptionOver other e) := by
  refine ascriptionOver hnamed (fun k hk => h k (Expr.weight_lt_of_mem_children hk))
    (fun k hk i hi => h i ?_) fun text htext => textAscription fun k hk => h k ?_
  · exact Nat.lt_trans (Expr.weight_lt_of_mem_children hi) (Expr.weight_lt_of_mem_children hk)
  · have hown : e.form.own ≤ e.weight := by
      rw [Expr.weight_eq]
      exact Nat.le_add_right _ _
    rw [htext] at hown
    exact Nat.lt_of_lt_of_le (weight_lt_of_textIs hk) hown

/-- Fuel beyond the weight of an annotation makes no difference. -/
theorem ascriptionUpTo {n m : Nat} {e : Expr} (hn : e.weight < n) (hm : e.weight < m) :
    D.Holds c (Check.ascriptionUpTo n e) (Check.ascriptionUpTo m e) := by
  induction n generalizing m e with
  | zero => exact absurd hn (Nat.not_lt_zero _)
  | succ n ih =>
    cases m with
    | zero => exact absurd hm (Nat.not_lt_zero _)
    | succ m =>
      exact ascriptionOver_of_weight hnamed fun k hk =>
        ih (Nat.lt_of_lt_of_le hk (Nat.le_of_lt_succ hn)) (Nat.lt_of_lt_of_le hk (Nat.le_of_lt_succ hm))

end

/-- Annotations do not nest deeper than the fuel goes. -/
theorem weight_lt_fuel (e : Expr) : e.weight < 16 * (e.weight + 2) * (e.weight + 2) := by
  have hsquare : e.weight + 2 ≤ 16 * (e.weight + 2) * (e.weight + 2) :=
    Nat.le_mul_of_pos_left _ (by omega)
  omega

theorem Basic.ascription {N : Sites} (law : D.Basic c N) (e : Expr) :
    D.Holds c (Check.ascription e) (Check.ascription e) := by
  refine ascriptionUpTo (Discipline.namedAscription (fun s name => ?_) law.standIn) (weight_lt_fuel e)
    (weight_lt_fuel e)
  exact law.withArena fun a => s.functions_findDotted a name

end Discipline

end Credence

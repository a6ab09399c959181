import Credence.Check.Definition
import Credence.Proofs.Mentions

namespace Credence

/-- The names that an assignment to a target binds, and the one of a container of which it sets an item. -/
def Expr.boundNames (target : Expr) : List String :=
  match _h : target.form with
  | .name name => [name]
  | .subscript container _ => container.asName?.toList
  | .tuple targets | .list targets => targets.attach.flatMap fun ⟨t, _⟩ => t.boundNames
  | .starred inner => inner.boundNames
  | _ => []
termination_by sizeOf target
decreasing_by
  all_goals exact Expr.sizeOf_lt_of_mem_children (by simp_all [Expr.children, ExprForm.children])

/-- The names that an expression binds by itself: those of its targets, and the one of a container of which it
calls a method. -/
def ExprForm.changes : ExprForm Expr → List String
  | .listComp _ clauses | .setComp _ clauses | .generator _ clauses | .dictComp _ _ clauses =>
    clauses.flatMap (·.target.boundNames)
  | .named target _ => target.boundNames
  | .call func _ _ =>
    match func.form with
    | .member value _ => value.asName?.toList
    | _ => []
  | _ => []

namespace Node

def changes : Node → List String
  | expr e => e.form.changes
  | stmt s => s.targets.flatMap Expr.boundNames

/-- A node that defines, imports, declares and deletes nothing. -/
def isPlain : Node → Bool
  | expr e =>
    match e.form with
    | .lambda _ _ => false
    | _ => true
  | stmt s =>
    match s.form with
    | .functionDef _ | .classDef _ | .importModules _ | .importFrom _ _ _ | .globalNames _ | .nonlocalNames _
    | .ascribe _ _ _ | .delete _ => false
    | .tryExcept _ handlers _ _ => handlers.all (·.name.isNone)
    | _ => true

def Mentions : Node → String → Prop
  | expr e => e.Mentions
  | stmt s => s.Mentions

end Node

section Occurrences

variable {e k : Expr} {s : Stmt} {n : Node} {x : String}

theorem Expr.Mentions.of_child (h : k.Mentions x) (hk : k ∈ e.children) : e.Mentions x :=
  Expr.mentions_iff.2 (.inr ⟨k, hk, h⟩)

theorem Expr.Mentions.of_asName? (h : x ∈ e.asName?.toList) : e.Mentions x :=
  .name (Expr.asName?_eq_some.1 (Option.mem_toList.1 h))

theorem Expr.mentions_of_mem_boundNames (h : x ∈ e.boundNames) : e.Mentions x := by
  -- By induction on the size of the target.
  induction e using WellFounded.induction (measure (sizeOf : Expr → Nat)).wf with
  | _ e ih =>
    have inside {k : Expr} (hk : k ∈ e.children) (h : x ∈ k.boundNames) : e.Mentions x :=
      (ih k (Expr.sizeOf_lt_of_mem_children hk) h).of_child hk
    rw [boundNames.eq_def] at h
    rcases e with ⟨node, form, span⟩
    cases form with
    | name name =>
      obtain rfl := List.mem_singleton.1 h
      exact .name rfl
    | subscript container index =>
      exact (Mentions.of_asName? h).of_child (by simp [children, ExprForm.children])
    | tuple targets | list targets =>
      obtain ⟨k, -, hx⟩ := List.mem_flatMap.1 h
      exact inside k.2 hx
    | starred value => exact inside (by simp [children, ExprForm.children]) h
    | _ => exact absurd h List.not_mem_nil

theorem Expr.mentions_of_mem_changes (h : x ∈ e.form.changes) : e.Mentions x := by
  have clause {clauses : List (Clause Expr)} (h : x ∈ clauses.flatMap (·.target.boundNames))
      (hclauses : ∀ k ∈ clauses.flatMap Clause.parts, k ∈ e.children) : e.Mentions x := by
    obtain ⟨clause, hclause, hx⟩ := List.mem_flatMap.1 h
    refine (mentions_of_mem_boundNames hx).of_child (hclauses _ ?_)
    exact List.mem_flatMap.2 ⟨clause, hclause, List.mem_cons_self⟩
  rcases e with ⟨node, form, span⟩
  cases form with
  | listComp elt clauses | setComp elt clauses | generator elt clauses =>
    exact clause h fun k hk => List.mem_cons_of_mem _ hk
  | dictComp key value clauses =>
    exact clause h fun k hk => List.mem_cons_of_mem _ (List.mem_cons_of_mem _ hk)
  | named target value => exact (mentions_of_mem_boundNames h).of_child (by simp [children, ExprForm.children])
  | call func args keywords =>
    simp only [ExprForm.changes] at h
    split at h
    · rename_i value attr hform
      have hfunc : func.Mentions x := (Mentions.of_asName? h).of_child (by simp [children, hform, ExprForm.children])
      exact hfunc.of_child (by simp [children, ExprForm.children])
    · exact absurd h List.not_mem_nil
  | _ => exact absurd h List.not_mem_nil

theorem Stmt.targets_subset (s : Stmt) : s.targets ⊆ s.expressions := by
  intro e he
  unfold targets at he
  unfold expressions StmtForm.expressions
  cases hform : s.form with
  | assign targets value =>
    rw [hform] at he
    exact List.mem_append_left _ he
  | ascribe target ascribed value | augAssign target op value | forLoop target iter body orelse isAsync =>
    rw [hform] at he
    simp [List.mem_singleton.1 he]
  | withItems items body isAsync =>
    rw [hform] at he
    obtain ⟨item, hitem, hvars⟩ := List.mem_filterMap.1 he
    exact List.mem_flatMap.2 ⟨item, hitem, List.mem_cons_of_mem _ (Option.mem_toList.2 hvars)⟩
  | _ =>
    rw [hform] at he
    exact absurd he List.not_mem_nil

theorem Node.mentions_of_mem_changes (h : x ∈ n.changes) : n.Mentions x := by
  cases n with
  | expr e => exact Expr.mentions_of_mem_changes h
  | stmt s =>
    obtain ⟨target, htarget, hx⟩ := List.mem_flatMap.1 h
    refine Stmt.mentions_iff.2 (.inl (.inl ⟨target, s.targets_subset htarget, ?_⟩))
    exact Expr.mentions_of_mem_boundNames hx

theorem Expr.mentions_of_mem_nodes (hk : k ∈ e.nodes) (hplain : ∀ k ∈ e.nodes, (Node.expr k).isPlain = true)
    (h : k.Mentions x) : e.Mentions x := by
  induction e using WellFounded.induction (measure (sizeOf : Expr → Nat)).wf with
  | _ e ih =>
    rw [nodes_eq] at hk hplain
    obtain ⟨hself, hparts⟩ := List.forall_mem_cons.1 hplain
    rcases List.mem_cons.1 hk with rfl | hk
    · exact h
    obtain ⟨p, hp, hk⟩ := List.mem_flatMap.1 hk
    have hmentions := ih p (sizeOf_lt_of_mem_parts hp) hk fun k hk => hparts k (List.mem_flatMap.2 ⟨p, hp, hk⟩)
    rcases List.mem_append.1 hp with hextra | hchild
    · unfold ExprForm.extras at hextra
      split at hextra
      · rename_i hform
        simp [Node.isPlain, hform] at hself
      · exact absurd hextra List.not_mem_nil
    · exact hmentions.of_child hchild

theorem mem_bodyNodes_cons_of_isPlain {rest : List Stmt} (hplain : (Node.stmt s).isPlain = true)
    (hn : n ∈ bodyNodes (s :: rest)) :
    n = .stmt s ∨ (∃ e ∈ s.expressions, ∃ k ∈ e.nodes, n = .expr k) ∨ (∃ b ∈ s.blocks, n ∈ bodyNodes b) ∨
      n ∈ bodyNodes rest := by
  have hextras : s.form.extras = [] := by
    unfold StmtForm.extras
    split
    · rename_i hform
      simp [Node.isPlain, hform] at hplain
    · rename_i hform
      simp [Node.isPlain, hform] at hplain
    · rfl
  have hbody : s.definitionBody = [] := by
    unfold Stmt.definitionBody StmtForm.definitionBody
    split
    · rename_i hform
      simp [Node.isPlain, hform] at hplain
    · rename_i hform
      simp [Node.isPlain, hform] at hplain
    · rfl
  rw [bodyNodes_cons, hextras, hbody, bodyNodes, List.append_nil, List.append_nil] at hn
  rcases List.mem_append.1 hn with hn | hn
  · rcases List.mem_append.1 hn with hn | hn
    · rcases List.mem_cons.1 hn with rfl | hn
      · exact .inl rfl
      · obtain ⟨k, hk, rfl⟩ := List.mem_map.1 hn
        obtain ⟨e, he, hk⟩ := List.mem_flatMap.1 hk
        exact .inr (.inl ⟨e, he, k, hk, rfl⟩)
    · exact .inr (.inr (.inl (List.mem_flatMap.1 hn)))
  · exact .inr (.inr (.inr hn))

theorem mem_bodyNodes_self (s : Stmt) (rest : List Stmt) : .stmt s ∈ bodyNodes (s :: rest) := by
  rw [bodyNodes_cons]
  exact List.mem_cons_self

theorem mem_bodyNodes_of_expression {rest : List Stmt} (he : e ∈ s.expressions) (hk : k ∈ e.nodes) :
    .expr k ∈ bodyNodes (s :: rest) := by
  rw [bodyNodes_cons]
  refine List.mem_append_left _ (List.mem_append_left _ (List.mem_append_left _ (List.mem_cons_of_mem _ ?_)))
  exact List.mem_map_of_mem (List.mem_flatMap.2 ⟨e, List.mem_append_left _ he, hk⟩)

theorem mem_bodyNodes_of_block {rest b : List Stmt} (hb : b ∈ s.blocks) (hn : n ∈ bodyNodes b) :
    n ∈ bodyNodes (s :: rest) := by
  rw [bodyNodes_cons]
  exact List.mem_append_left _ (List.mem_append_left _ (List.mem_append_right _ (List.mem_flatMap.2 ⟨b, hb, hn⟩)))

theorem mem_bodyNodes_of_rest {rest : List Stmt} (hn : n ∈ bodyNodes rest) : n ∈ bodyNodes (s :: rest) := by
  rw [bodyNodes_cons]
  exact List.mem_append_right _ hn

theorem mentions_of_mem_bodyNodes {body : List Stmt} (hn : n ∈ bodyNodes body) (hplain : ∀ n ∈ bodyNodes body, n.isPlain = true)
    (h : n.Mentions x) : ∃ s ∈ body, s.Mentions x := by
  match body with
  | [] =>
    rw [bodyNodes] at hn
    exact absurd hn List.not_mem_nil
  | s :: rest =>
    rcases mem_bodyNodes_cons_of_isPlain (hplain _ (mem_bodyNodes_self s rest)) hn with
      rfl | ⟨e, he, k, hk, rfl⟩ | ⟨b, hb, hn⟩ | hn
    · exact ⟨s, List.mem_cons_self, h⟩
    · have hmentions := Expr.mentions_of_mem_nodes hk
        (fun k hk => hplain _ (mem_bodyNodes_of_expression he hk)) h
      exact ⟨s, List.mem_cons_self, Stmt.mentions_iff.2 (.inl (.inl ⟨e, he, hmentions⟩))⟩
    · obtain ⟨t, ht, hmentions⟩ := mentions_of_mem_bodyNodes hn
        (fun n hn => hplain n (mem_bodyNodes_of_block hb hn)) h
      exact ⟨s, List.mem_cons_self, Stmt.mentions_iff.2 (.inl (.inr ⟨b, hb, t, ht, hmentions⟩))⟩
    · obtain ⟨t, ht, hmentions⟩ := mentions_of_mem_bodyNodes hn
        (fun n hn => hplain n (mem_bodyNodes_of_rest hn)) h
      exact ⟨t, List.mem_cons_of_mem s ht, hmentions⟩
termination_by sizeOf body
decreasing_by
  · have := Stmt.sizeOf_lt_of_mem_blocks hb
    simp only [List.cons.sizeOf_spec]
    omega
  · simp only [List.cons.sizeOf_spec]
    omega

end Occurrences

end Credence

import Mathlib.Data.List.Basic
import Credence.Grammar.Source
import Credence.Proofs.Node
import Credence.Tree.Names

namespace Credence

/-- A name occurs in an expression, at any depth and in any field but for annotations. -/
inductive Expr.Mentions : Expr → String → Prop where
  | name {e : Expr} {x : String} (h : e.form = .name x) : e.Mentions x
  | inside {e c : Expr} {x : String} (hc : e.form.Holds c) (h : c.Mentions x) : e.Mentions x

/-- A name occurs in a statement, at any depth and in any field but for those which a definition
hides. -/
inductive Stmt.Mentions : Stmt → String → Prop where
  | expression {s : Stmt} {e : Expr} {x : String} (he : s.form.Holds e) (h : e.Mentions x) :
    s.Mentions x
  | nested {s t : Stmt} {x : String} (ht : s.form.Nests t) (h : t.Mentions x) : s.Mentions x

theorem Expr.mentions_iff {e : Expr} {x : String} :
    e.Mentions x ↔ e.form = .name x ∨ ∃ c ∈ e.children, c.Mentions x := by
  refine ⟨fun h => ?_, fun h => ?_⟩
  · cases h with
    | name h => exact .inl h
    | inside hc h => exact .inr ⟨_, ExprForm.mem_children_iff.2 hc, h⟩
  · rcases h with h | ⟨c, hc, h⟩
    · exact .name h
    · exact .inside (ExprForm.mem_children_iff.1 hc) h

theorem Stmt.mentions_iff {s : Stmt} {x : String} :
    s.Mentions x ↔ ((∃ e ∈ s.expressions, e.Mentions x) ∨ ∃ b ∈ s.blocks, ∃ t ∈ b, t.Mentions x) ∨
      ∃ t ∈ s.definitionBody, t.Mentions x := by
  refine ⟨fun h => ?_, fun h => ?_⟩
  · cases h with
    | expression he h => exact .inl (.inl ⟨_, StmtForm.mem_expressions_iff.2 he, h⟩)
    | nested ht h =>
      rcases StmtForm.mem_substatements_iff.2 ht with ⟨b, hb, ht⟩ | ht
      · exact .inl (.inr ⟨b, hb, _, ht, h⟩)
      · exact .inr ⟨_, ht, h⟩
  · rcases h with (⟨e, he, h⟩ | ⟨b, hb, t, ht, h⟩) | ⟨t, ht, h⟩
    · exact .expression (StmtForm.mem_expressions_iff.1 he) h
    · exact .nested (StmtForm.mem_substatements_iff.1 (.inl ⟨b, hb, ht⟩)) h
    · exact .nested (StmtForm.mem_substatements_iff.1 (.inr ht)) h

/-- A walk adds names to a list, and no name twice. -/
structure AddsNames (before after : List String) (new : String → Prop) : Prop where
  mem_iff : ∀ x, x ∈ after ↔ x ∈ before ∨ new x
  nodup : before.Nodup → after.Nodup

namespace AddsNames

variable {before after final : List String} {new more : String → Prop}

theorem congr (h : AddsNames before after new) (hnew : ∀ x, new x ↔ more x) : AddsNames before after more :=
  ⟨fun x => (h.mem_iff x).trans (or_congr_right (hnew x)), h.nodup⟩

theorem trans (h : AddsNames before after new) (h' : AddsNames after final more) :
    AddsNames before final fun x => new x ∨ more x := by
  refine ⟨fun x => ?_, fun hnodup => h'.nodup (h.nodup hnodup)⟩
  rw [h'.mem_iff, h.mem_iff, or_assoc]

theorem foldl {α : Type} {f : List String → α → List String} {p : α → String → Prop}
    {as : List α} (h : ∀ names, ∀ a ∈ as, AddsNames names (f names a) (p a))
    (names : List String) : AddsNames names (as.foldl f names) fun x => ∃ a ∈ as, p a x := by
  induction as generalizing names with
  | nil => exact ⟨fun x => by simp, id⟩
  | cons a as ih =>
    have hrest := ih (fun names b hb => h names b (List.mem_cons_of_mem a hb)) (f names a)
    refine ((h names a List.mem_cons_self).trans hrest).congr fun x => ?_
    rw [List.exists_mem_cons_iff]

theorem addName (names : List String) (name : String) :
    AddsNames names (addName names name) fun x => x = name := by
  unfold Credence.addName
  split
  · rename_i hmem
    refine ⟨fun x => ⟨.inl, fun h => h.elim id fun heq => ?_⟩, id⟩
    rw [heq]
    exact List.contains_iff_mem.1 hmem
  · rename_i hmem
    refine ⟨fun x => by simp, fun h => List.nodup_append.2 ⟨h, List.pairwise_singleton _ _, ?_⟩⟩
    rintro x hx y hy rfl
    rw [List.mem_singleton.1 hy] at hx
    exact hmem (List.contains_iff_mem.2 hx)

end AddsNames

theorem Expr.asName?_eq_some {e : Expr} {x : String} : e.asName? = some x ↔ e.form = .name x := by
  unfold asName?
  split
  · rename_i name hform
    rw [hform]
    simp
  · rename_i hne
    exact ⟨nofun, fun h => absurd h (hne x)⟩

theorem Expr.namesOnto_eq (names : List String) (e : Expr) :
    e.namesOnto names =
      e.children.foldl namesOnto ((e.asName?.map (addName names)).getD names) := by
  rw [namesOnto]
  exact List.foldl_attach (f := namesOnto)

theorem adds_asName? (e : Expr) (names : List String) :
    AddsNames names ((e.asName?.map (addName names)).getD names) fun x => e.form = .name x := by
  cases hname : e.asName? with
  | none =>
    refine ⟨fun x => ⟨.inl, fun h => h.elim id fun hform => ?_⟩, id⟩
    rw [Expr.asName?_eq_some.2 hform] at hname
    cases hname
  | some name =>
    refine (AddsNames.addName names name).congr fun x => ?_
    rw [Expr.asName?_eq_some.1 hname]
    simp [eq_comm]

theorem adds_namesOnto (e : Expr) (names : List String) :
    AddsNames names (e.namesOnto names) e.Mentions := by
  have hchildren := AddsNames.foldl (f := Expr.namesOnto) (p := Expr.Mentions)
    fun names c (hc : c ∈ e.children) => adds_namesOnto c names
  rw [Expr.namesOnto_eq]
  exact ((adds_asName? e names).trans (hchildren _)).congr fun x => Expr.mentions_iff.symm
termination_by sizeOf e
decreasing_by exact Expr.sizeOf_lt_of_mem_children hc

theorem namesUsedOnto_cons (names : List String) (s : Stmt) (rest : List Stmt) :
    namesUsedOnto names (s :: rest) =
      namesUsedOnto (namesUsedOnto (s.blocks.foldl namesUsedOnto
        (s.expressions.foldl Expr.namesOnto names)) s.definitionBody) rest := by
  rw [namesUsedOnto]
  exact congrArg (fun nested => namesUsedOnto (namesUsedOnto nested s.definitionBody) rest)
    (List.foldl_attach (f := namesUsedOnto))

theorem adds_namesUsedOnto (body : List Stmt) (names : List String) :
    AddsNames names (namesUsedOnto names body) fun x => ∃ s ∈ body, s.Mentions x := by
  match body with
  | [] =>
    rw [namesUsedOnto]
    exact ⟨fun x => by simp, id⟩
  | s :: rest =>
    have hexpressions := AddsNames.foldl (f := Expr.namesOnto) (p := Expr.Mentions)
      fun names e (_ : e ∈ s.expressions) => adds_namesOnto e names
    have hblocks := AddsNames.foldl (f := namesUsedOnto) (p := fun b x => ∃ t ∈ b, t.Mentions x)
      fun names b (hb : b ∈ s.blocks) => adds_namesUsedOnto b names
    have hdefinition := adds_namesUsedOnto s.definitionBody
    have hrest := adds_namesUsedOnto rest
    rw [namesUsedOnto_cons]
    refine ((((hexpressions _).trans (hblocks _)).trans (hdefinition _)).trans (hrest _)).congr ?_
    intro x
    rw [← Stmt.mentions_iff, List.exists_mem_cons_iff]
termination_by sizeOf body
decreasing_by
  · have := Stmt.sizeOf_lt_of_mem_blocks hb
    simp only [List.cons.sizeOf_spec]
    omega
  · have := Stmt.sizeOf_definitionBody_lt s
    simp only [List.cons.sizeOf_spec]
    omega
  · simp only [List.cons.sizeOf_spec]
    omega

/-- The names that are used in a body are those which its statements mention, each once. -/
theorem mem_namesUsed_iff_mentions (body : List Stmt) :
    (∀ x, x ∈ namesUsed body ↔ ∃ s ∈ body, s.Mentions x) ∧ (namesUsed body).Nodup := by
  have hadds := adds_namesUsedOnto body []
  refine ⟨fun x => ?_, hadds.nodup .nil⟩
  rw [namesUsed, hadds.mem_iff]
  simp

/-- The annotation of a parameter occurs in a body that does not mention it. -/
theorem not_mem_namesUsed_annotated :
    ∃ m, Module.ofSource "def g(p: T):\n    pass\n" "main.py" = .ok m ∧
      (∃ e, .expr e ∈ bodyNodes m.body ∧ e.form = .name "T") ∧ "T" ∉ namesUsed m.body := by
  have hnames : (Module.ofSource "def g(p: T):\n    pass\n" "main.py").toOption.map
      (fun m => (m.body.flatMap fun s => s.form.extras.map (·.asName?), namesUsed m.body)) =
      some ([some "T"], []) := by
    decide +kernel
  cases hm : Module.ofSource "def g(p: T):\n    pass\n" "main.py" with
  | error stop =>
    rw [hm] at hnames
    cases hnames
  | ok m =>
    rw [hm] at hnames
    obtain ⟨hextras, hused⟩ := Prod.mk.inj (Option.some.inj hnames)
    refine ⟨m, rfl, ?_, by rw [hused]; exact List.not_mem_nil⟩
    have hmem : some "T" ∈ m.body.flatMap fun s => s.form.extras.map (·.asName?) := by
      rw [hextras]
      exact List.mem_singleton_self _
    obtain ⟨s, hs, hmem⟩ := List.mem_flatMap.1 hmem
    obtain ⟨e, he, hname⟩ := List.mem_map.1 hmem
    have hpart : Node.expr e ∈ s.form.parts :=
      List.mem_append_left _ (List.mem_map_of_mem (List.mem_append_right _ he))
    exact ⟨e, Node.mem_bodyNodes_of_mem_parts hs hpart, Expr.asName?_eq_some.1 hname⟩

end Credence

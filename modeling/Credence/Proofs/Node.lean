import Credence.Proofs.Field

namespace Credence

/-- A tree that was read. -/
inductive Node where
  | expr (e : Expr)
  | stmt (s : Stmt)

def Params.annotations {ε : Type} (ps : Params ε) : List ε :=
  ps.all.filterMap (·.ascription)

def ExprForm.extras {ε : Type} : ExprForm ε → List ε
  | .lambda params _ => params.annotations
  | _ => []

def ExprForm.parts {ε : Type} (f : ExprForm ε) : List ε :=
  f.extras ++ f.children

/-- Expressions of definitions that are no expressions of the statement. -/
def StmtForm.extras {σ : Type} : StmtForm σ → List Expr
  | .functionDef definition => definition.params.annotations ++ definition.returns.toList
  | .classDef definition => definition.keywords.map (·.value)
  | _ => []

namespace Params

variable {ε : Type} [SizeOf ε]

theorem sizeOf_lt_of_mem_all {ps : Params ε} {p : Param ε} (h : p ∈ ps.all) :
    sizeOf p < sizeOf ps := by
  obtain ⟨args, defaults, vararg, kwonly, kwDefaults, kwarg⟩ := ps
  have hopt {o : Option (Param ε)} (h : p ∈ o.toList) : sizeOf p < sizeOf o := by
    rw [Option.mem_toList.1 h]
    simp
  simp only [all, List.mem_append] at h
  simp only [Params.mk.sizeOf_spec]
  rcases h with ((h | h) | h) | h
  · have := List.sizeOf_lt_of_mem h
    omega
  · have := hopt h
    omega
  · have := List.sizeOf_lt_of_mem h
    omega
  · have := hopt h
    omega

theorem sizeOf_lt_of_mem_annotations {ps : Params ε} {e : ε} (h : e ∈ ps.annotations) :
    sizeOf e < sizeOf ps := by
  obtain ⟨⟨name, ascription, span⟩, hp, he⟩ := List.mem_filterMap.1 h
  have hlt := sizeOf_lt_of_mem_all hp
  have he : ascription = some e := he
  rw [he] at hlt
  simp only [Param.mk.sizeOf_spec, Option.some.sizeOf_spec] at hlt
  omega

end Params

namespace ExprForm

variable {ε : Type}

theorem children_sublist_parts (f : ExprForm ε) : f.children.Sublist f.parts :=
  List.sublist_append_right _ _

theorem sizeOf_lt_of_mem_parts [SizeOf ε] {f : ExprForm ε} {e : ε} (h : e ∈ f.parts) :
    sizeOf e < sizeOf f := by
  rcases List.mem_append.1 h with h | h
  · unfold extras at h
    split at h
    · have := Params.sizeOf_lt_of_mem_annotations h
      simp only [lambda.sizeOf_spec]
      omega
    · cases h
  · exact sizeOf_lt_of_mem_children h

end ExprForm

namespace Expr

def parts (e : Expr) : List Expr :=
  e.form.parts

theorem sizeOf_lt_of_mem_parts {e p : Expr} (h : p ∈ e.parts) : sizeOf p < sizeOf e := by
  have := ExprForm.sizeOf_lt_of_mem_parts h
  cases e
  simp only [Expr.mk.sizeOf_spec] at *
  omega

theorem children_sublist_parts (e : Expr) : e.children.Sublist e.parts :=
  e.form.children_sublist_parts

def nodes (e : Expr) : List Expr :=
  e :: e.parts.attach.flatMap fun ⟨p, _⟩ => p.nodes
termination_by sizeOf e
decreasing_by exact sizeOf_lt_of_mem_parts ‹_›

theorem nodes_eq (e : Expr) : e.nodes = e :: e.parts.flatMap nodes := by
  rw [nodes, List.flatMap_subtype fun _ _ => rfl, List.unattach_attach]

end Expr

def StmtForm.parts (f : StmtForm Stmt) : List Node :=
  (f.expressions ++ f.extras).map .expr ++ (f.blocks.flatten ++ f.definitionBody).map .stmt

def bodyNodes : List Stmt → List Node
  | [] => []
  | s :: rest =>
    let exprs := (s.form.expressions ++ s.form.extras).flatMap Expr.nodes
    let blocks := s.blocks.attach.flatMap fun ⟨b, _⟩ => bodyNodes b
    .stmt s :: exprs.map .expr ++ blocks ++ bodyNodes s.definitionBody ++ bodyNodes rest
termination_by body => sizeOf body
decreasing_by
  · have := Stmt.sizeOf_lt_of_mem_blocks ‹_›
    simp only [List.cons.sizeOf_spec]
    omega
  · have := Stmt.sizeOf_definitionBody_lt s
    simp only [List.cons.sizeOf_spec]
    omega
  · simp only [List.cons.sizeOf_spec]
    omega

theorem bodyNodes_cons (s : Stmt) (rest : List Stmt) :
    bodyNodes (s :: rest) =
      .stmt s :: ((s.form.expressions ++ s.form.extras).flatMap Expr.nodes).map .expr ++
        s.blocks.flatMap bodyNodes ++ bodyNodes s.definitionBody ++ bodyNodes rest := by
  rw [bodyNodes, List.flatMap_subtype fun _ _ => rfl, List.unattach_attach]

namespace Node

def id : Node → Nat
  | expr e => e.id
  | stmt s => s.id

def parts : Node → List Node
  | expr e => e.parts.map expr
  | stmt s => s.form.parts

def nodes : Node → List Node
  | expr e => e.nodes.map expr
  | stmt s => bodyNodes [s]

theorem bodyNodes_eq (body : List Stmt) : bodyNodes body = (body.map stmt).flatMap nodes := by
  induction body with
  | nil => rw [bodyNodes]; rfl
  | cons s rest ih =>
    rw [List.map_cons, List.flatMap_cons, ← ih, nodes, bodyNodes_cons, bodyNodes_cons s []]
    rw [bodyNodes, List.append_nil]

theorem nodes_eq (n : Node) : n.nodes = n :: n.parts.flatMap nodes := by
  cases n with
  | expr e =>
    rw [nodes, Expr.nodes_eq, List.map_cons, List.map_flatMap, parts, List.flatMap_map]
    rfl
  | stmt s =>
    have hexprs (es : List Expr) :
        (es.flatMap Expr.nodes).map expr = (es.map expr).flatMap nodes := by
      rw [List.map_flatMap, List.flatMap_map]
      rfl
    have hblocks (bs : List (List Stmt)) :
        bs.flatMap bodyNodes = (bs.flatten.map stmt).flatMap nodes := by
      rw [funext bodyNodes_eq, List.map_flatten, List.flatMap_def, List.flatMap_def,
        List.map_flatten, List.flatten_flatten, List.map_map, List.map_map]
      rfl
    have hparts : (parts (.stmt s)).flatMap nodes =
        ((s.form.expressions ++ s.form.extras).map expr).flatMap nodes ++
          ((s.blocks.flatten.map stmt).flatMap nodes ++
            (s.definitionBody.map stmt).flatMap nodes) := by
      rw [parts, StmtForm.parts, List.flatMap_append, List.map_append (f := stmt),
        List.flatMap_append]
      rfl
    rw [nodes, bodyNodes_cons, bodyNodes, List.append_nil, hexprs, hblocks, bodyNodes_eq, hparts,
      List.append_assoc]
    rfl

theorem mem_nodes_self (n : Node) : n ∈ n.nodes := by
  rw [nodes_eq]
  exact List.mem_cons_self

theorem mem_bodyNodes_of_mem_parts {body : List Stmt} {s : Stmt} {p : Node} (hs : s ∈ body)
    (hp : p ∈ s.form.parts) : p ∈ bodyNodes body := by
  rw [bodyNodes_eq]
  refine List.mem_flatMap.2 ⟨.stmt s, List.mem_map_of_mem hs, ?_⟩
  rw [nodes_eq]
  exact List.mem_cons_of_mem _ (List.mem_flatMap.2 ⟨p, hp, p.mem_nodes_self⟩)

end Node

theorem Params.mem_annotations_iff {ε : Type} {ps : Params ε} {e : ε} :
    e ∈ ps.annotations ↔ ps.Annotates e := by
  simp only [annotations, all, List.mem_filterMap, List.mem_append, Option.mem_toList]
  refine ⟨fun h => ?_, fun h => ?_⟩
  · obtain ⟨p, ((hp | hp) | hp) | hp, h⟩ := h
    · exact .positional hp h
    · exact .rest hp h
    · exact .keywordOnly hp h
    · exact .mapping hp h
  · cases h with
    | positional hp h => exact ⟨_, .inl (.inl (.inl hp)), h⟩
    | rest hp h => exact ⟨_, .inl (.inl (.inr hp)), h⟩
    | keywordOnly hp h => exact ⟨_, .inl (.inr hp), h⟩
    | mapping hp h => exact ⟨_, .inr hp, h⟩

theorem StmtForm.mem_extras_iff {σ : Type} {f : StmtForm σ} {e : Expr} :
    e ∈ f.extras ↔ f.Hides e := by
  refine ⟨fun h => ?_, fun h => ?_⟩
  · unfold extras at h
    split at h
    · rcases List.mem_append.1 h with h | h
      · exact .annotated (Params.mem_annotations_iff.1 h)
      · exact .returns (Option.mem_toList.1 h)
    · obtain ⟨k, hk, rfl⟩ := List.mem_map.1 h
      exact .keyword hk
    · cases h
  · cases h with
    | annotated h => exact List.mem_append_left _ (Params.mem_annotations_iff.2 h)
    | returns h => exact List.mem_append_right _ (Option.mem_toList.2 h)
    | keyword h => exact List.mem_map_of_mem h

inductive Node.Holds : Node → Node → Prop where
  | child {e c : Expr} (h : e.form.Holds c) : Holds (.expr e) (.expr c)
  | annotated {e a body : Expr} {params : Params Expr} (he : e.form = .lambda params body)
    (h : params.Annotates a) : Holds (.expr e) (.expr a)
  | expression {s : Stmt} {e : Expr} (h : s.form.Holds e) : Holds (.stmt s) (.expr e)
  | hidden {s : Stmt} {e : Expr} (h : s.form.Hides e) : Holds (.stmt s) (.expr e)
  | nested {s t : Stmt} (h : s.form.Nests t) : Holds (.stmt s) (.stmt t)

theorem Node.mem_parts_iff {n p : Node} : p ∈ n.parts ↔ n.Holds p := by
  refine ⟨fun h => ?_, fun h => ?_⟩
  · cases n with
    | expr e =>
      obtain ⟨c, hc, rfl⟩ := List.mem_map.1 h
      rcases List.mem_append.1 hc with hc | hc
      · unfold ExprForm.extras at hc
        split at hc
        · rename_i hform
          exact .annotated hform (Params.mem_annotations_iff.1 hc)
        · cases hc
      · exact .child (ExprForm.mem_children_iff.1 hc)
    | stmt s =>
      rcases List.mem_append.1 h with h | h
      · obtain ⟨e, he, rfl⟩ := List.mem_map.1 h
        rcases List.mem_append.1 he with he | he
        · exact .expression (StmtForm.mem_expressions_iff.1 he)
        · exact .hidden (StmtForm.mem_extras_iff.1 he)
      · obtain ⟨t, ht, rfl⟩ := List.mem_map.1 h
        rw [List.mem_append, List.mem_flatten] at ht
        exact .nested (StmtForm.mem_substatements_iff.1 ht)
  · cases h with
    | child h =>
      exact List.mem_map_of_mem (List.mem_append_right _ (ExprForm.mem_children_iff.2 h))
    | annotated he h =>
      refine List.mem_map_of_mem (List.mem_append_left _ ?_)
      rw [he]
      exact Params.mem_annotations_iff.2 h
    | expression h =>
      refine List.mem_append_left _ (List.mem_map_of_mem ?_)
      exact List.mem_append_left _ (StmtForm.mem_expressions_iff.2 h)
    | hidden h =>
      refine List.mem_append_left _ (List.mem_map_of_mem ?_)
      exact List.mem_append_right _ (StmtForm.mem_extras_iff.2 h)
    | nested h =>
      refine List.mem_append_right _ (List.mem_map_of_mem ?_)
      rw [List.mem_append, List.mem_flatten]
      exact StmtForm.mem_substatements_iff.2 h

end Credence

import Credence.Proofs.Reading

namespace Credence.Grammar.Reading

open Token (Kind)

variable {α β : Type} {R : Reading}

def paramExprs (ps : Params Expr) : List Expr :=
  ps.annotations ++ ps.defaultExprs

def entryExprs : ParamEntry → List Expr
  | .slash => []
  | .mapping p => p.ascription.toList
  | .star p => (p.bind (·.ascription)).toList
  | .plain p default => p.ascription.toList ++ default.toList

theorem filterMap_ascription (p : Param Expr) :
    [p].filterMap (·.ascription) = p.ascription.toList := by
  cases h : p.ascription <;> simp [h]

theorem filterMap_default (default : Option Expr) : [default].filterMap id = default.toList := by
  cases default <;> rfl

open Classical in
theorem count_paramExprs (e : Expr) (ps : Params Expr) :
    (paramExprs ps).count e = (ps.args.filterMap (·.ascription)).count e +
      (ps.vararg.toList.filterMap (·.ascription)).count e +
      (ps.kwonly.filterMap (·.ascription)).count e +
      (ps.kwarg.toList.filterMap (·.ascription)).count e + ps.defaults.count e +
      (ps.kwDefaults.filterMap id).count e := by
  simp only [paramExprs, Params.annotations, Params.all, Params.defaultExprs,
    List.filterMap_append, List.count_append]
  omega

/-- An entry adds its expressions to those of the parameters, in place of others if it comes for a
second time. -/
theorem subperm_addEntry (state : Params Expr × Bool) (entry : ParamEntry) :
    (paramExprs (addEntry state entry).1).Subperm (paramExprs state.1 ++ entryExprs entry) := by
  classical
  obtain ⟨ps, kw⟩ := state
  rw [List.subperm_ext_iff]
  intro e _
  rw [List.count_append, count_paramExprs, count_paramExprs]
  cases entry with
  | slash => simp [addEntry, entryExprs]
  | mapping p =>
    simp only [addEntry, entryExprs, Option.toList_some, filterMap_ascription]
    omega
  | star p =>
    cases p with
    | none => simp [addEntry, entryExprs]
    | some p =>
      have hor : (some p <|> ps.vararg) = some p := rfl
      simp only [addEntry, entryExprs, hor, Option.toList_some, filterMap_ascription,
        Option.bind_some]
      omega
  | plain p default =>
    cases kw with
    | true =>
      simp only [addEntry, entryExprs, List.filterMap_append, List.count_append,
        filterMap_ascription, filterMap_default]
      omega
    | false =>
      simp only [addEntry, entryExprs, List.filterMap_append, List.count_append,
        filterMap_ascription]
      omega

theorem subperm_addEntries (entries : List ParamEntry) (state : Params Expr × Bool) :
    (paramExprs (entries.foldl addEntry state).1).Subperm
      (paramExprs state.1 ++ entries.flatMap entryExprs) := by
  induction entries generalizing state with
  | nil => simp [List.Subperm.refl]
  | cons entry entries ih =>
    rw [List.foldl_cons, List.flatMap_cons, ← List.append_assoc]
    exact (ih _).trans ((List.subperm_append_right _).2 (subperm_addEntry state entry))

def itemExprs (item : Option Expr × Expr) : List Expr :=
  item.1.toList ++ [item.2]

def argumentExpr : Expr ⊕ Keyword Expr → Expr
  | .inl e => e
  | .inr k => k.value

theorem perm_arguments (items : List (Expr ⊕ Keyword Expr)) :
    (items.filterMap Sum.getLeft? ++ (items.filterMap Sum.getRight?).map (·.value)).Perm
      (items.map argumentExpr) := by
  induction items with
  | nil => exact .refl _
  | cons item items ih =>
    cases item with
    | inl e => exact ih.cons e
    | inr keyword => exact List.perm_middle.trans (ih.cons keyword.value)

/-- Reads an expression where fewer tokens are left than the fuel goes. -/
def Subs (R : Reading) (n : Nat) (sub : Sub) : Prop :=
  ∀ p, R.Items (sub p) n fun e => [.expr e]

theorem looks_endsExpression : Looks (return (← kind).endsExpression) :=
  fun c => ⟨c.kind.endsExpression, rfl⟩

def StartsClause (c : Cursor) : Prop :=
  c.kind = .kwFor ∨ c.kind = .kwAsync ∧ c.nextKind = .kwFor

theorem atAsyncFor_bind {c : Cursor} {f : Bool → Parser β} {Q : β → Cursor → Prop}
    (hp : c.kind = .kwAsync → c.nextKind = .kwFor → R.Gives (f true) c Q)
    (hq : ¬(c.kind = .kwAsync ∧ c.nextKind = .kwFor) → R.Gives (f false) c Q) :
    R.Gives (atAsyncFor >>= f) c Q := by
  change R.Gives (f (c.kind == .kwAsync && c.nextKind == .kwFor)) c Q
  by_cases h : c.kind = .kwAsync ∧ c.nextKind = .kwFor
  · rw [h.1, h.2]
    exact hp h.1 h.2
  · have hb : (c.kind == .kwAsync && c.nextKind == .kwFor) = false := by
      simpa using h
    rw [hb]
    exact hq h

theorem startsClause_bind {c : Cursor} {f : Bool → Parser β} {Q : β → Cursor → Prop}
    (hp : StartsClause c → R.Gives (f true) c Q) (hq : R.Gives (f false) c Q) :
    R.Gives (startsClause >>= f) c Q := by
  have hstarts : R.Gives startsClause c fun b d => (b = true → StartsClause c) ∧ d = c := by
    refine Gives.ite_at (fun hk => Gives.pure ⟨fun _ => .inl hk, rfl⟩) fun _ => ?_
    rw [← bind_pure atAsyncFor]
    exact atAsyncFor_bind (fun hk hnext => Gives.pure ⟨fun _ => .inr ⟨hk, hnext⟩, rfl⟩)
      fun _ => Gives.pure ⟨nofun, rfl⟩
  refine Gives.bind hstarts fun b d ⟨hb, hd⟩ => ?_
  rw [hd]
  cases b with
  | true => exact hp (hb rfl)
  | false => exact hq

@[simp]
theorem flatMap_expr (es : List Expr) : es.flatMap (fun e => [Node.expr e]) = es.map .expr := by
  induction es with
  | nil => rfl
  | cons e es ih => simp [ih]

theorem gives_compareOp? {c : Cursor} (hc : R.Starts c) :
    R.Gives compareOp? c fun r d =>
      match r with
      | none => R.Read c d 0 0 []
      | some _ => R.Read c d 1 1 [] := by
  -- One token is passed, or two if the next one belongs to the operator.
  have one {op : CompareOp} (hk : c.kind.pays = true) :
      R.Gives (advance >>= fun _ => pure (some op)) c fun r d =>
        match r with
        | none => R.Read c d 0 0 []
        | some _ => R.Read c d 1 1 [] :=
    Gives.pass_bind hc.read hk fun h => Gives.pure h
  have two {op : CompareOp} (hk : c.kind.pays = true) (hnext : c.nextKind.pays = true) :
      R.Gives (advance >>= fun _ => advance >>= fun _ => pure (some op)) c fun r d =>
        match r with
        | none => R.Read c d 0 0 []
        | some _ => R.Read c d 1 1 [] := by
    refine Gives.pass_bind hc.read hk fun h => ?_
    rw [← Cursor.kind_next (hc.ended.later_ne_nil (Kind.ne_eof_of_pays hk))] at hnext
    refine Gives.pass_bind h hnext fun h => Gives.pure ?_
    exact h.less (by omega) (by omega) (.refl _)
  refine Gives.get_bind (Gives.kind_bind ?_)
  cases hk : c.kind
  case less | lessEquals | greater | greaterEquals | equals | notEquals | kwIn =>
    exact one (by rw [hk]; rfl)
  case kwIs =>
    simp only
    split
    · rename_i hnext
      exact two (by rw [hk]; rfl) (by rw [eq_of_beq hnext]; rfl)
    · exact one (by rw [hk]; rfl)
  case kwNot =>
    simp only
    split
    · rename_i hnext
      exact two (by rw [hk]; rfl) (by rw [eq_of_beq hnext]; rfl)
    · exact Gives.pure hc.read
  all_goals exact Gives.pure hc.read

namespace Subs

variable {n : Nat} {sub : Sub} (hs : R.Subs n sub) {c : Cursor}
include hs

protected theorem bind {o : Cursor} {m k : Nat} {ns : List Node} {p : Power} {f : Expr → Parser β}
    {Q : β → Cursor → Prop} (ho : o.room ≤ n) (h : R.Read o c (m + 1) k ns)
    (hf : ∀ e d, R.Read o d (m + 2) k (ns ++ [.expr e]) → R.Gives (f e) d Q) :
    R.Gives (sub p >>= f) c Q :=
  Gives.after h (hs p c h.starts (h.room_lt ho)) hf

theorem exprList (hc : R.Starts c) (hn : c.room < n) :
    R.Gives (exprList sub) c fun e d => R.Read c d 1 0 [.expr e] := by
  refine Gives.start_bind (Gives.after hc.read (hs .lowest c hc hn) fun first d hd => ?_)
  refine Gives.ite_at (fun hk => ?_) fun _ => Gives.pure hd
  have hlt := Nat.lt_of_le_of_lt hd.room_le hn
  refine Gives.after hd (Items.moreItems_of_comma looks_endsExpression (hs _) hd.starts hlt hk) ?_
  intro more e he
  refine Gives.exprFrom he (Nat.le_refl _) (Nat.le_refl _) (.inl rfl) ?_
  simp [ExprForm.parts, ExprForm.extras, ExprForm.children, List.Subperm.refl]

theorem targetList (hc : R.Starts c) (hn : c.room < n) :
    R.Gives (targetList sub) c fun e d => R.Read c d 1 0 [.expr e] := by
  refine Gives.start_bind (Gives.after hc.read (hs .relational c hc hn) fun first d hd => ?_)
  refine Gives.ite_at (fun hk => ?_) fun _ => Gives.pure hd
  have hlt := Nat.lt_of_le_of_lt hd.room_le hn
  refine Gives.after hd (Items.moreItems_of_comma (looks_at _) (hs _) hd.starts hlt hk) ?_
  intro more e he
  refine Gives.exprFrom he (Nat.le_refl _) (Nat.le_refl _) (.inl rfl) ?_
  simp [ExprForm.parts, ExprForm.extras, ExprForm.children, List.Subperm.refl]

section Operands

variable (hc : R.Starts c) (hn : c.room ≤ n) (hk : c.kind.pays = true)
include hc hn hk

theorem signed : R.Gives (signed sub) c fun e d => R.Read c d 1 0 [.expr e] := by
  refine Gives.pass_bind hc.read hk fun h => hs.bind hn h fun operand d hd => ?_
  have hspan : Spanned c d ([] ++ [.expr operand]) ⟨c.start, operand.span.stop⟩ :=
    ⟨.inl rfl, .inr ⟨operand, rfl, rfl⟩⟩
  exact Gives.mkExpr hd (by omega) (Nat.le_refl _) hspan (.kept _) (.refl _)

theorem negation : R.Gives (negation sub) c fun e d => R.Read c d 1 0 [.expr e] := by
  refine Gives.pass_bind hc.read hk fun h => hs.bind hn h fun operand d hd => ?_
  exact Gives.exprFrom hd (by omega) (Nat.le_refl _) (.inl rfl) (.refl _)

theorem starred : R.Gives (starred sub) c fun e d => R.Read c d 1 0 [.expr e] := by
  refine Gives.pass_bind hc.read hk fun h => hs.bind hn h fun value d hd => ?_
  exact Gives.exprFrom hd (by omega) (Nat.le_refl _) (.inl rfl) (.refl _)

theorem awaiting : R.Gives (awaiting sub) c fun e d => R.Read c d 1 0 [.expr e] := by
  refine Gives.pass_bind hc.read hk fun h => hs.bind hn h fun value d hd => ?_
  exact Gives.exprFrom hd (by omega) (Nat.le_refl _) (.inl rfl) (.refl _)

theorem yielding : R.Gives (yielding sub) c fun e d => R.Read c d 1 0 [.expr e] := by
  refine Gives.pass_bind hc.read hk fun h => ?_
  refine Gives.eat_or h rfl (fun h => Gives.kind_bind ?_) (Gives.kind_bind ?_)
  · refine hs.bind hn h fun value d hd => ?_
    exact Gives.exprFrom hd (by omega) (by simp [ExprForm.own]) (.inl rfl) (.refl _)
  · simp only
    split
    · rename_i hfalse
      cases hfalse
    split
    · exact Gives.exprFrom h (Nat.le_refl _) (Nat.le_refl _) (.inl rfl) (.refl _)
    · refine Gives.after h (hs.exprList h.starts (h.room_lt hn)) fun value d hd => ?_
      exact Gives.exprFrom hd (by omega) (Nat.le_refl _) (.inl rfl) (.refl _)

end Operands

theorem param (annotated : Bool) {o : Cursor} {m k : Nat} {ns : List Node} (ho : o.room ≤ n)
    (h : R.Read o c m k ns) :
    R.Gives (param sub annotated) c fun p d =>
      R.Read o d (m + 1) (k + 1) (ns ++ p.ascription.toList.map .expr) := by
  refine Gives.expect_bind h rfl fun h => ?_
  simp only
  split
  · refine Gives.eat_or h rfl (fun h => ?_) ?_
    · refine hs.bind ho h fun e d hd => Gives.pure ?_
      exact hd.less (by omega) (by omega) (.refl _)
    · exact Gives.pure (by simpa using h)
  · exact Gives.pure (by simpa using h)

theorem paramEntry (annotated : Bool) :
    R.Items (paramEntry sub annotated) n fun entry => (entryExprs entry).map .expr := by
  intro c hc hn
  have h := hc.read
  have hn := Nat.le_of_lt hn
  refine Gives.eat_or h rfl (fun h => Gives.pure (h.less (Nat.le_refl _) (by omega) (.refl _))) ?_
  refine Gives.eat_or h rfl (fun h => ?_) ?_
  · refine Gives.bind (hs.param annotated hn h) fun p d hd => Gives.pure ?_
    exact hd.less (by omega) (by omega) (.refl _)
  refine Gives.eat_or h rfl (fun h => ?_) ?_
  · refine Gives.ite_at (fun _ => ?_) fun _ => ?_
    · refine Gives.bind (hs.param annotated hn h) fun p d hd => Gives.pure ?_
      exact hd.less (by omega) (by omega) (.refl _)
    · exact Gives.pure (h.less (Nat.le_refl _) (by omega) (.refl _))
  refine Gives.bind (hs.param annotated hn h) fun p d hd => ?_
  refine Gives.eat_or hd rfl (fun h => ?_) ?_
  · refine hs.bind hn h fun default e he => Gives.pure ?_
    refine he.less (by omega) (by omega) ?_
    simp [entryExprs]
  · refine Gives.pure (hd.less (by omega) (by omega) ?_)
    simp [entryExprs]

theorem parameters (close : Kind) (annotated : Bool) (hc : R.Starts c) (hn : c.room < n) :
    R.Gives (parameters sub close annotated) c fun ps d =>
      ∃ ns, R.Read c d 0 0 ns ∧ ((paramExprs ps).map Node.expr).Subperm ns := by
  have hitems := (hs.paramEntry annotated).commaList (looks_at close) hc hn
  refine Gives.bind hitems fun entries d hd => Gives.pure ⟨_, hd, ?_⟩
  have hsub := List.Subperm.map (f := Node.expr) (fun _ _ h => Node.expr.inj h)
    (subperm_addEntries entries ({}, false))
  rwa [List.map_append, List.map_flatMap] at hsub

theorem conditions : R.Rounds (do if ← eat .kwIf then return some (← sub .ternary) else return none)
    n (fun e => [.expr e]) fun _ => 0 := by
  intro c hc hn
  have h := hc.read
  refine Gives.eat_or h rfl (fun h => ?_) (Gives.pure h)
  refine hs.bind (Nat.le_of_lt hn) h fun e d hd => Gives.pure ?_
  exact hd.less (by omega) (Nat.zero_le _) (.refl _)

theorem clause (isAsync : Bool) {o : Cursor} {m k : Nat} (ho : o.room ≤ n)
    (h : R.Read o c (m + 1) k []) :
    R.Gives (clause sub isAsync) c fun clause d => R.Read o d 1 k (clause.parts.map .expr) := by
  refine Gives.after h (hs.targetList h.starts (h.room_lt ho)) fun target d h => ?_
  refine Gives.expect_bind h rfl fun h => hs.bind ho h fun iter e h => ?_
  refine Gives.after h (hs.conditions.collect h.starts (h.room_lt ho)) fun conditions f h => ?_
  refine Gives.pure (h.less (by omega) (by omega) ?_)
  simp [Clause.parts]

theorem nextClause? (hc : R.Starts c) (hn : c.room ≤ n) :
    R.Gives (nextClause? sub) c fun r d =>
      match r with
      | none => R.Read c d 0 0 [] ∧ ¬StartsClause c
      | some clause => R.Read c d 1 1 (clause.parts.map .expr) := by
  refine atAsyncFor_bind (fun hk hnext => ?_) fun hasync => ?_
  · have hpays : c.kind.pays = true := by rw [hk]; rfl
    have hfor : c.next.kind = .kwFor := by
      rw [Cursor.kind_next (hc.ended.later_ne_nil (Kind.ne_eof_of_pays hpays))]
      exact hnext
    refine Gives.pass_bind hc.read hpays fun h => ?_
    refine Gives.eat_bind (fun hk => ?_) fun hne => absurd hfor hne
    have h := h.pass (by rw [hk]; rfl)
    refine Gives.bind (hs.clause true hn h) fun clause d hd => Gives.pure ?_
    exact hd.less (Nat.le_refl _) (by omega) (.refl _)
  · refine Gives.eat_bind (fun hk => ?_) fun hk => Gives.pure ⟨hc.read, ?_⟩
    · have h := hc.read.pass (by rw [hk]; rfl)
      exact Gives.bind (hs.clause false hn h) fun clause d hd => Gives.pure hd
    · rintro (h | h)
      · exact hk h
      · exact hasync h

theorem clauses (hc : R.Starts c) (hn : c.room < n) (hstart : StartsClause c) :
    R.Gives (clauses sub) c fun cs d =>
      R.Read c d 0 1 ((cs.flatMap Clause.parts).map .expr) := by
  have hround : R.Rounds (Grammar.nextClause? sub) n (fun clause => clause.parts.map .expr)
      fun _ => 1 := by
    intro c hc hn
    refine (hs.nextClause? hc (Nat.le_of_lt hn)).imp fun r d h => ?_
    cases r with
    | none => exact h.1
    | some clause => exact h
  have hsome : R.Gives (Grammar.nextClause? sub) c fun r _ => r.isSome = true := by
    refine (hs.nextClause? hc (Nat.le_of_lt hn)).imp fun r d h => ?_
    cases r with
    | none => exact absurd hstart h.2
    | some clause => rfl
  refine (hround.collect_ne_nil hc hn hsome).imp fun cs d ⟨hne, hd⟩ => ?_
  rw [List.map_flatMap]
  refine hd.less (Nat.zero_le _) ?_ (.refl _)
  cases cs with
  | nil => exact absurd rfl hne
  | cons clause cs => simp

section Brackets

variable (hc : R.Starts c) (hn : c.room ≤ n) (hk : c.kind.pays = true)
include hc hn hk

theorem lambda : R.Gives (lambda sub) c fun e d => R.Read c d 1 0 [.expr e] := by
  refine Gives.pass_bind hc.read hk fun h => ?_
  have hparams := hs.parameters .colon false h.starts (h.room_lt hn)
  refine Gives.bind hparams fun params d ⟨ns, hd, hns⟩ => ?_
  refine Gives.expect_bind (h.trans hd) rfl fun h => hs.bind hn h fun body e h => ?_
  refine Gives.exprFrom h (by omega) (by simp [ExprForm.own]) (.inl rfl) ?_
  have hparts : (ExprForm.lambda params body).parts = paramExprs params ++ [body] :=
    (List.append_assoc _ _ _).symm
  rw [hparts, List.map_append]
  exact (List.subperm_append_right _).2 hns

theorem grouping : R.Gives (grouping sub) c fun e d => R.Read c d 1 0 [.expr e] := by
  refine Gives.pass_bind hc.read hk fun h => ?_
  refine Gives.eat_or h rfl (fun h => ?_) ?_
  · exact Gives.exprFrom h (by omega) (by simp [ExprForm.own]) (.inl rfl) (.refl _)
  refine hs.bind hn h fun first d h => startsClause_bind (fun hstart => ?_) ?_
  · refine Gives.after h (hs.clauses h.starts (h.room_lt hn) hstart) fun gens e h => ?_
    refine Gives.expect_bind h rfl fun h => ?_
    refine Gives.exprFrom h (by omega) (by simp [ExprForm.own]) (.inl rfl) ?_
    simp [ExprForm.parts, ExprForm.extras, ExprForm.children, List.Subperm.refl]
  refine Gives.ite_at (fun _ => ?_) fun _ => ?_
  · have hmore := (hs .lowest).moreItems (looks_at .closeParen) h.starts (h.room_lt hn)
    refine Gives.after h hmore fun more e h => Gives.expect_bind h rfl fun h => ?_
    refine Gives.exprFrom h (by omega) (by simp [ExprForm.own]) (.inl rfl) ?_
    simp [ExprForm.parts, ExprForm.extras, ExprForm.children, List.Subperm.refl]
  · refine Gives.expect_bind h rfl fun h => Gives.pure ?_
    exact h.less (by omega) (Nat.zero_le _) (.refl _)

theorem listDisplay : R.Gives (listDisplay sub) c fun e d => R.Read c d 1 0 [.expr e] := by
  refine Gives.pass_bind hc.read hk fun h => ?_
  refine Gives.eat_or h rfl (fun h => ?_) ?_
  · exact Gives.exprFrom h (by omega) (by simp [ExprForm.own]) (.inl rfl) (.refl _)
  refine hs.bind hn h fun first d h => startsClause_bind (fun hstart => ?_) ?_
  · refine Gives.after h (hs.clauses h.starts (h.room_lt hn) hstart) fun gens e h => ?_
    refine Gives.pure_bind (Gives.expect_bind h rfl fun h => ?_)
    refine Gives.exprFrom h (by omega) (by simp [ExprForm.own]) (.inl rfl) ?_
    simp [ExprForm.parts, ExprForm.extras, ExprForm.children, List.Subperm.refl]
  · have hmore := (hs .lowest).moreItems (looks_at .closeBracket) h.starts (h.room_lt hn)
    refine Gives.after h hmore fun more e h => Gives.pure_bind (Gives.expect_bind h rfl fun h => ?_)
    refine Gives.exprFrom h (by omega) (by simp [ExprForm.own]) (.inl rfl) ?_
    simp [ExprForm.parts, ExprForm.extras, ExprForm.children, List.Subperm.refl]

end Brackets

theorem dictItem : R.Items (dictItem sub) n fun item => (itemExprs item).map .expr := by
  intro c hc hn
  refine Gives.eat_or hc.read rfl (fun h => ?_) ?_
  · refine hs.bind (Nat.le_of_lt hn) h fun value d h => Gives.pure ?_
    exact h.less (by omega) (Nat.zero_le _) (.refl _)
  · refine Gives.after hc.read (hs .lowest c hc hn) fun key d h => ?_
    refine Gives.expect_bind h rfl fun h => hs.bind (Nat.le_of_lt hn) h fun value e h => ?_
    exact Gives.pure (h.less (by omega) (Nat.zero_le _) (.refl _))

theorem dictRest {item : Option Expr × Expr} {o : Cursor} {m k : Nat} {ns : List Node}
    (ho : o.room ≤ n) (h : R.Read o c (m + 1) (k + 1) ns)
    (hns : ((itemExprs item).map Node.expr).Subperm ns) :
    R.Gives (dictRest sub o.start item) c fun e d => R.Read o d 1 0 [.expr e] := by
  have hmore := hs.dictItem.moreItems (looks_at .closeCurly) h.starts (h.room_lt ho)
  refine Gives.after h hmore fun more e h => Gives.expect_bind h rfl fun h => ?_
  refine Gives.exprFrom h (by omega) (by simp [ExprForm.own]) (.inl rfl) ?_
  have hparts : (ExprForm.dict (item :: more)).parts = itemExprs item ++ more.flatMap itemExprs :=
    rfl
  rw [hparts, List.map_append, List.map_flatMap]
  exact (List.subperm_append_right _).2 hns

theorem curlyDisplay (hc : R.Starts c) (hn : c.room ≤ n) (hk : c.kind.pays = true) :
    R.Gives (curlyDisplay sub) c fun e d => R.Read c d 1 0 [.expr e] := by
  refine Gives.pass_bind hc.read hk fun h => ?_
  refine Gives.eat_or h rfl (fun h => ?_) ?_
  · exact Gives.exprFrom h (by omega) (by simp [ExprForm.own]) (.inl rfl) (.refl _)
  refine Gives.eat_or h rfl (fun h => ?_) ?_
  · exact hs.bind hn h fun value d h => hs.dictRest hn h (.refl _)
  refine hs.bind hn h fun first d h => ?_
  refine Gives.eat_or h rfl (fun h => ?_) ?_
  · refine hs.bind hn h fun value e h => startsClause_bind (fun hstart => ?_) ?_
    · refine Gives.after h (hs.clauses h.starts (h.room_lt hn) hstart) fun gens e h => ?_
      refine Gives.expect_bind h rfl fun h => ?_
      refine Gives.exprFrom h (by omega) (by simp [ExprForm.own]) (.inl rfl) ?_
      simp [ExprForm.parts, ExprForm.extras, ExprForm.children, List.Subperm.refl]
    · exact hs.dictRest hn h (.refl _)
  refine startsClause_bind (fun hstart => ?_) ?_
  · refine Gives.after h (hs.clauses h.starts (h.room_lt hn) hstart) fun gens e h => ?_
    refine Gives.pure_bind (Gives.expect_bind h rfl fun h => ?_)
    refine Gives.exprFrom h (by omega) (by simp [ExprForm.own]) (.inl rfl) ?_
    simp [ExprForm.parts, ExprForm.extras, ExprForm.children, List.Subperm.refl]
  · have hmore := (hs .lowest).moreItems (looks_at .closeCurly) h.starts (h.room_lt hn)
    refine Gives.after h hmore fun more e h => Gives.pure_bind (Gives.expect_bind h rfl fun h => ?_)
    refine Gives.exprFrom h (by omega) (by simp [ExprForm.own]) (.inl rfl) ?_
    simp [ExprForm.parts, ExprForm.extras, ExprForm.children, List.Subperm.refl]

theorem argument : R.Items (argument sub) n fun a => [.expr (argumentExpr a)] := by
  intro c hc hn
  have ho := Nat.le_of_lt hn
  refine Gives.eat_or hc.read rfl (fun h => ?_) ?_
  · refine hs.bind ho h fun value d h => Gives.pure ?_
    exact h.less (by omega) (Nat.zero_le _) (.refl _)
  refine Gives.get_bind ?_
  simp only
  split
  · rename_i hk
    obtain ⟨hname, hmark⟩ := Bool.and_eq_true_iff.1 hk
    have hpays : c.kind.pays = true := by rw [eq_of_beq hname]; rfl
    have hassign : c.next.kind.pays = true := by
      rw [Cursor.kind_next (hc.ended.later_ne_nil (Kind.ne_eof_of_pays hpays)), eq_of_beq hmark]
      rfl
    refine Gives.pass_bind hc.read hpays fun h => Gives.pass_bind h hassign fun h => ?_
    refine hs.bind ho h fun value d h => Gives.pure ?_
    exact h.less (by omega) (Nat.zero_le _) (.refl _)
  · refine Gives.start_bind (Gives.after hc.read (hs .lowest c hc hn) fun arg d h => ?_)
    refine startsClause_bind (fun hstart => ?_) (Gives.pure h)
    have hlt := Nat.lt_of_le_of_lt h.room_le hn
    refine Gives.after h (hs.clauses h.starts hlt hstart) fun gens e h => ?_
    refine Gives.bind
      (Gives.exprFrom (l := 0) h (Nat.le_refl _) (by simp [ExprForm.own]) (.inl rfl) ?_)
      fun e d h => Gives.pure h
    simp [ExprForm.parts, ExprForm.extras, ExprForm.children, List.Subperm.refl]

theorem arguments {o : Cursor} {m k : Nat} {ns : List Node} (ho : o.room ≤ n)
    (h : R.Read o c (m + 1) k ns) :
    R.Gives (arguments sub) c fun r d => ∃ ms, R.Read o d (m + 2) (k + 1) (ns ++ ms) ∧
      ((r.1 ++ r.2.map (·.value)).map Node.expr).Subperm ms := by
  have hitems := hs.argument.commaList (looks_at .closeParen) h.starts (h.room_lt ho)
  refine Gives.after h hitems fun items d h => Gives.expect_bind h rfl fun h => ?_
  refine Gives.pure ⟨_, h, ?_⟩
  have hperm := (perm_arguments items).map Node.expr
  rw [List.map_map] at hperm
  have hflat : items.flatMap (fun a => [Node.expr (argumentExpr a)]) =
      items.map (Node.expr ∘ argumentExpr) := List.flatMap_pure_eq_map _ _
  rw [hflat]
  exact hperm.subperm

theorem sliceBound (hc : R.Starts c) (hn : c.room < n) :
    R.Gives (sliceBound sub) c fun r d => R.Read c d 0 0 (r.toList.map .expr) := by
  refine Gives.kind_bind ?_
  split
  any_goals exact Gives.pure hc.read
  refine Gives.after hc.read (hs .lowest c hc hn) fun e d h => Gives.pure ?_
  exact h.less (Nat.zero_le _) (Nat.le_refl _) (.refl _)

theorem sliceFrom {lower : Option Expr} {o : Cursor} {m : Nat} (ho : o.room ≤ n)
    (h : R.Read o c m 0 (lower.toList.map .expr)) :
    R.Gives (sliceFrom sub o.start lower) c fun e d => R.Read o d (m + 1) 0 [.expr e] := by
  refine Gives.expect_bind h rfl fun h => ?_
  refine Gives.after h (hs.sliceBound h.starts (h.room_lt ho)) fun upper d h => ?_
  refine Gives.eat_or h rfl (fun h => ?_) ?_
  · refine Gives.after h (hs.sliceBound h.starts (h.room_lt ho)) fun step e h => ?_
    refine Gives.exprFrom h (by omega) (by simp [ExprForm.own]) (.inl rfl) ?_
    simp [ExprForm.parts, ExprForm.extras, ExprForm.children, List.Subperm.refl]
  · refine Gives.pure_bind (Gives.exprFrom h (by omega) (by simp [ExprForm.own]) (.inl rfl) ?_)
    simp [ExprForm.parts, ExprForm.extras, ExprForm.children, List.Subperm.refl]

theorem sliceItem : R.Items (sliceItem sub) n fun e => [.expr e] := by
  intro c hc hn
  have ho := Nat.le_of_lt hn
  refine Gives.start_bind (Gives.ite_at (fun _ => hs.sliceFrom ho hc.read) fun _ => ?_)
  refine Gives.after hc.read (hs .lowest c hc hn) fun e d h => ?_
  refine Gives.ite_at (fun _ => ?_) fun _ => Gives.pure h
  refine (hs.sliceFrom ho h).imp fun e d h => ?_
  exact h.less (by omega) (Nat.le_refl _) (.refl _)

section Extensions

variable {o : Cursor} {m k : Nat} {left : Expr} (ho : o.room ≤ n)
  (h : R.Read o c (m + 1) 0 [.expr left]) (hk : c.kind.pays = true)
include ho h hk

theorem binary (p : Power) : R.Gives (binary sub left p) c fun e d => R.Read o d (m + 2) 0 [.expr e] := by
  refine Gives.pass_bind h hk fun h => ?_
  split
  · exact Gives.unexpected h.starts.inv
  · refine hs.bind ho h fun right d h => ?_
    exact Gives.exprAcross h (by omega) (by simp [ExprForm.own]) rfl rfl (.kept _) (.refl _)

theorem power : R.Gives (power sub left) c fun e d => R.Read o d (m + 2) 0 [.expr e] := by
  refine Gives.pass_bind h hk fun h => hs.bind ho h fun right d h => ?_
  exact Gives.exprAcross h (by omega) (by simp [ExprForm.own]) rfl rfl (.kept _) (.refl _)

theorem boolean (p : Power) :
    R.Gives (boolean sub left p) c fun e d => R.Read o d (m + 2) 0 [.expr e] := by
  refine Gives.pass_bind h hk fun h => hs.bind ho h fun right d h => ?_
  simp only
  generalize (if c.current.kind == Kind.kwAnd then BoolOp.and else .or) = op
  split
  · rename_i leftOp values hform
    split
    · -- The node of the left chain is not needed any more.
      have hinner := Unwraps.unwrapped left [.expr right]
      rw [Expr.children, hform] at hinner
      refine Gives.exprAcross h (by omega) (by simp [ExprForm.own]) rfl rfl hinner ?_
      simp [ExprForm.parts, ExprForm.extras, ExprForm.children, List.Subperm.refl]
    · exact Gives.exprAcross h (by omega) (by simp [ExprForm.own]) rfl rfl (.kept _) (.refl _)
  · exact Gives.exprAcross h (by omega) (by simp [ExprForm.own]) rfl rfl (.kept _) (.refl _)

theorem ternary (p : Power) :
    R.Gives (ternary sub left p) c fun e d => R.Read o d (m + 2) 0 [.expr e] := by
  refine Gives.pass_bind h hk fun h => hs.bind ho h fun test d h => ?_
  refine Gives.expect_bind h rfl fun h => hs.bind ho h fun orelse e h => ?_
  refine Gives.exprAcross h (by omega) (by simp [ExprForm.own]) rfl rfl (.kept _) ?_
  exact (List.Perm.swap _ _ _).subperm

theorem walrus : R.Gives (walrus sub left) c fun e d => R.Read o d (m + 2) 0 [.expr e] := by
  refine Gives.pass_bind h hk fun h => hs.bind ho h fun value d h => ?_
  exact Gives.exprAcross h (by omega) (by simp [ExprForm.own]) rfl rfl (.kept _) (.refl _)

theorem call : R.Gives (call sub left) c fun e d => R.Read o d (m + 2) 0 [.expr e] := by
  refine Gives.pass_bind h hk fun h => ?_
  refine Gives.bind (hs.arguments ho h) fun r d ⟨ns, h, hns⟩ => ?_
  refine Gives.exprFrom h (by omega) (by simp [ExprForm.own]) (startsAt_head _ _) ?_
  exact (List.subperm_append_left [Node.expr left]).2 hns

theorem subscript : R.Gives (subscript sub left) c fun e d => R.Read o d (m + 2) 0 [.expr e] := by
  refine Gives.pass_bind h hk fun h => Gives.start_bind ?_
  have hlt := h.room_lt ho
  -- The index is read by itself: its comma pays for a tuple beside the expression on the left.
  refine Gives.bind (hs.sliceItem c.next h.starts hlt) fun first d hd => ?_
  refine Gives.ite_at (fun hk => ?_) fun _ => ?_
  · have hlt := Nat.lt_of_le_of_lt hd.room_le hlt
    have hmore := hs.sliceItem.moreItems_of_comma (looks_at .closeBracket) hd.starts hlt hk
    refine Gives.after hd hmore fun more e he => ?_
    have hindex : R.Gives (exprFrom c.next.start (.tuple (first :: more))) e fun index f =>
        R.Read c.next f 1 0 [.expr index] := by
      refine Gives.exprFrom he (by omega) (by simp [ExprForm.own]) (.inl rfl) ?_
      simp [ExprForm.parts, ExprForm.extras, ExprForm.children, List.Subperm.refl]
    refine Gives.bind hindex fun index f hf => Gives.expect_bind (h.trans hf) rfl fun h => ?_
    exact Gives.exprFrom h (by omega) (by simp [ExprForm.own]) (startsAt_head _ _) (.refl _)
  · refine Gives.pure_bind (Gives.expect_bind (h.trans hd) rfl fun h => ?_)
    exact Gives.exprFrom h (by omega) (by simp [ExprForm.own]) (startsAt_head _ _) (.refl _)

omit hk in
theorem comparison : R.Gives (comparison sub left) c fun e d => R.Read o d (m + 2) 0 [.expr e] := by
  have hround : R.Rounds (do
      match ← compareOp? with
      | none => return none
      | some op => return some (op, ← sub .relational))
      n (fun step => [.expr step.2]) fun _ => 1 := by
    intro c hc hn
    refine Gives.bind (gives_compareOp? hc) fun r d hd => ?_
    cases r with
    | none => exact Gives.pure hd
    | some op =>
      refine hs.bind (Nat.le_of_lt hn) hd fun e f h => Gives.pure ?_
      exact h.less (by omega) (Nat.le_refl _) (.refl _)
  refine Gives.after h (hround.collect h.starts (h.room_lt ho)) fun rest d h => ?_
  cases rest with
  | nil => exact Gives.unexpected h.starts.inv
  | cons first rest =>
    refine Gives.exprFrom h (by simp; omega) (by simp [ExprForm.own]) (startsAt_head _ _) ?_
    have hflat : (first :: rest).flatMap (fun step => [Node.expr step.2]) =
        (first :: rest).map (Node.expr ∘ (·.2)) := List.flatMap_pure_eq_map _ _
    have hparts : (ExprForm.compare left (first :: rest)).parts =
        left :: (first :: rest).map (·.2) := rfl
    rw [hflat, hparts, List.map_cons, List.map_map]
    exact .refl _

omit hs ho in
theorem member : R.Gives (member left) c fun e d => R.Read o d (m + 2) 0 [.expr e] := by
  refine Gives.pass_bind h hk fun h => Gives.expect_bind h rfl fun h => ?_
  exact Gives.exprFrom h (by omega) (by simp [ExprForm.own]) (startsAt_head _ _) (.refl _)

theorem extend (p : Power) :
    R.Gives (extend sub left p) c fun e d => R.Read o d (m + 2) 0 [.expr e] := by
  refine Gives.get_bind ?_
  simp only
  split
  case h_1 => exact hs.walrus ho h hk
  case h_2 => exact hs.ternary ho h hk p
  case h_3 | h_4 => exact hs.boolean ho h hk p
  case h_5 | h_6 | h_7 | h_8 | h_9 | h_10 | h_11 | h_12 | h_13 => exact hs.comparison ho h
  case h_26 => exact hs.power ho h hk
  case h_27 => exact hs.call ho h hk
  case h_28 => exact hs.subscript ho h hk
  case h_29 => exact member h hk
  case h_30 => exact Gives.fail h.starts.inv
  all_goals exact hs.binary ho h hk p

end Extensions

end Subs

theorem pays_of_rank {k : Kind} (h : 0 < (Power.ofKind k).rank) : k.pays = true := by
  cases k <;> first | rfl | exact absurd h (by decide)

theorem primary {c : Cursor} (hc : R.Starts c) (hk : c.kind.pays = true) :
    R.Gives primary c fun e d => R.Read c d 1 0 [.expr e] := by
  have node {form : ExprForm Expr} (hown : form.own = 1) (hparts : form.parts = []) :
      R.Gives (advance >>= fun _ => mkExpr form c.current.span) c fun e d =>
        R.Read c d 1 0 [.expr e] := by
    refine Gives.pass_bind hc.read hk fun h => ?_
    have hspan : Spanned c c.next [] c.current.span :=
      ⟨.inl rfl, .inl (Cursor.getD_passed_next (hc.ended.later_ne_nil (Kind.ne_eof_of_pays hk))).symm⟩
    refine Gives.mkExpr h (Nat.le_refl _) (Nat.le_of_eq (by rw [hown])) hspan (.kept _) ?_
    rw [hparts]
    exact .refl _
  refine Gives.get_bind ?_
  simp only
  split
  · split
    · exact Gives.pure_bind (node rfl rfl)
    · exact Gives.bind (Q := fun _ _ => False) (Gives.fail hc.inv) fun _ _ h => h.elim
  any_goals exact Gives.pure_bind (node rfl rfl)
  exact Gives.bind (Q := fun _ _ => False) (Gives.unexpected hc.inv) fun _ _ h => h.elim

theorem credit_of_isStringKind {t : Token} (h : isStringKind t.kind = true) :
    t.credit = t.value.length + 1 := by
  unfold Token.credit
  unfold isStringKind at h
  split at h
  any_goals rename_i hk; rw [hk]
  cases h

theorem pays_of_isStringKind {k : Kind} (h : isStringKind k = true) : k.pays = true := by
  cases k <;> first | rfl | cases h

theorem length_foldl_append (texts : List String) (text : String) :
    (texts.foldl (· ++ ·) text).length = text.length + (texts.map String.length).sum := by
  induction texts generalizing text with
  | nil => simp
  | cons first rest ih =>
    rw [List.foldl_cons, ih, String.length_append, List.map_cons, List.sum_cons]
    omega

theorem sum_lt_sum_succ {γ : Type} (f : γ → Nat) {xs : List γ} (h : xs ≠ []) :
    (xs.map f).sum < (xs.map fun x => f x + 1).sum := by
  induction xs with
  | nil => exact absurd rfl h
  | cons x xs ih =>
    rw [List.map_cons, List.map_cons, List.sum_cons, List.sum_cons]
    by_cases hxs : xs = []
    · simp [hxs]
    · have := ih hxs
      omega

theorem length_join_lt {parts : List Token} (h : parts ≠ []) :
    (String.join (parts.map (·.value))).length < (parts.map fun t => t.value.length + 1).sum := by
  rw [String.join, length_foldl_append, List.map_map, String.length_empty, Nat.zero_add]
  exact sum_lt_sum_succ _ h

/-- The parts of a literal pay for its text, and the first part for the node. -/
theorem stringLiteral {c : Cursor} (hc : R.Starts c) (hk : isStringKind c.kind = true) :
    R.Gives stringLiteral c fun e d => R.Read c d 1 0 [.expr e] := by
  have hpart {c : Cursor} (hc : R.Starts c) (hk : isStringKind c.kind = true) :
      R.Read c c.next 1 (c.current.value.length + 1) [] := by
    have h := hc.read.next (Kind.ne_eof_of_pays (pays_of_isStringKind hk))
    rwa [credit_of_isStringKind hk, Nat.zero_add, Nat.zero_add] at h
  have hround : R.Rounds (do if isStringKind (← kind) then return some (← advance) else return none)
      (c.room + 1) (fun _ => []) fun t => t.value.length + 1 := by
    intro c hc _
    refine Gives.kind_bind ?_
    by_cases hk : isStringKind c.kind = true
    · rw [if_pos hk]
      exact Gives.advance_bind (Gives.pure (hpart hc hk))
    · rw [if_neg hk]
      exact Gives.pure hc.read
  have hsome : R.Gives (do if isStringKind (← kind) then return some (← advance) else return none) c
      fun r _ => r.isSome = true := by
    refine Gives.kind_bind ?_
    rw [if_pos hk]
    exact Gives.advance_bind (Gives.pure rfl)
  refine Gives.start_bind (Gives.kind_bind ?_)
  have hparts := hround.collect_ne_nil hc (Nat.lt_succ_self _) hsome
  refine Gives.bind hparts fun parts d ⟨hne, hd⟩ => ?_
  have hpaid := length_join_lt hne
  have hlength : 1 ≤ parts.length := List.length_pos_iff.2 hne
  simp only
  generalize String.join (parts.map (·.value)) = value at *
  split
  · exact Gives.exprFrom hd hlength (by simp only [ExprForm.own]; omega) (.inl rfl) List.nil_subperm
  split
  · exact Gives.exprFrom hd hlength (by simp only [ExprForm.own]; omega) (.inl rfl) List.nil_subperm
  · exact Gives.exprFrom hd hlength (by simp only [ExprForm.own]; omega) (.inl rfl) List.nil_subperm

namespace Subs

variable {n : Nat} {sub : Sub} (hs : R.Subs n sub) {c : Cursor}
include hs

theorem operand (hc : R.Starts c) (hn : c.room ≤ n) :
    R.Gives (operand sub) c fun e d => R.Read c d 1 0 [.expr e] := by
  refine Gives.kind_bind ?_
  split
  all_goals rename_i hk
  case h_1 | h_2 | h_3 | h_4 | h_5 | h_6 => exact primary hc (by rw [hk]; rfl)
  case h_7 | h_8 | h_9 => exact stringLiteral hc (by rw [hk]; rfl)
  case h_10 | h_11 | h_12 => exact hs.signed hc hn (by rw [hk]; rfl)
  case h_13 => exact hs.negation hc hn (by rw [hk]; rfl)
  case h_14 => exact hs.starred hc hn (by rw [hk]; rfl)
  case h_15 => exact hs.awaiting hc hn (by rw [hk]; rfl)
  case h_16 => exact hs.yielding hc hn (by rw [hk]; rfl)
  case h_17 => exact hs.lambda hc hn (by rw [hk]; rfl)
  case h_18 => exact hs.grouping hc hn (by rw [hk]; rfl)
  case h_19 => exact hs.listDisplay hc hn (by rw [hk]; rfl)
  case h_20 => exact hs.curlyDisplay hc hn (by rw [hk]; rfl)
  case h_21 => exact Gives.unexpected hc.inv

theorem extensions (bound : Power) {o : Cursor} {k : Nat} {left : Expr} (ho : o.room ≤ n)
    (h : R.Read o c 1 0 [.expr left]) (hk : c.room < k) :
    R.Gives (extensions sub bound k left) c fun e d => R.Read o d 1 0 [.expr e] := by
  induction k generalizing c left with
  | zero => omega
  | succ k ih =>
    refine Gives.kind_bind ?_
    simp only
    split
    · exact Gives.pure h
    · rename_i hrank
      have hpays : c.kind.pays = true := pays_of_rank (by omega)
      -- All tokens that were passed are counted, so that the extension passes one of those left.
      obtain ⟨m, hm⟩ : ∃ m, o.room = c.room + (m + 1) :=
        ⟨o.room - c.room - 1, by have := h.room; omega⟩
      have h : R.Read o c (m + 1) 0 [.expr left] := ⟨h.nodes, h.ended, Nat.le_of_eq hm.symm⟩
      refine Gives.bind (hs.extend ho h hpays _) fun e d hd => ?_
      have hroom := hd.room
      exact ih (hd.less (by omega) (Nat.le_refl _) (.refl _)) (by omega)

end Subs

theorem subs_expression (n : Nat) : R.Subs n (expression n) := by
  induction n with
  | zero => exact fun p c _ hn => absurd hn (Nat.not_lt_zero _)
  | succ n ih =>
    intro p c hc hn
    have hn : c.room ≤ n := Nat.le_of_lt_succ hn
    refine Gives.bind (ih.operand hc hn) fun left d h => Gives.get_bind ?_
    refine ih.extensions p hn h ?_
    unfold Cursor.budget Cursor.room
    omega

end Credence.Grammar.Reading

import Credence.Grammar.Source
import Credence.Proofs.Ladder

namespace Credence

namespace Grammar

open Token (Kind Face face spelled)

theorem rank_symbol (op : BinaryOp) : rank (spelled op.symbol) = op.rung.height + 1 := by
  rw [spelled_symbol]
  cases op <;> rfl

theorem rank_boolean (op : BoolOp) : rank (spelled op.word) = op.rung.height + 1 := by
  rw [spelled_boolean]
  cases op <;> rfl

theorem Admits.mono {bound : Power} {j k : Nat} (h : Admits bound k) (hk : k ≤ j) : Admits bound j :=
  fun rung hj => h rung (Nat.le_trans hk hj)

theorem reach_binary (op : BinaryOp) : op.rung.reach ≤ op.rung.height := by
  cases op <;> exact Nat.le_refl _

theorem hold_binary (op : BinaryOp) : op.rung.hold ≤ op.rung.height + 1 := by
  cases op <;> decide

theorem clear_symbol {op : BinaryOp} (hop : op ≠ .pow) :
    Clear op.rung.height (spelled op.symbol) := by
  intro rung hk
  rw [rank_symbol]
  cases op <;> cases rung <;> simp_all [BinaryOp.rung, Rung.height, Rung.hold]

theorem clear_trailer (f : Face) : Clear Rung.trailer.height f := by
  intro rung hk
  have hrank := rank_le f
  cases rung <;> simp only [Rung.height, Rung.hold] at hk ⊢ <;> omega

theorem admits_unary (op : UnaryOp) : Admits (boundOfUnary op) op.rung.height := by
  intro rung hk
  cases op <;> cases rung <;>
    simp_all [boundOfUnary, UnaryOp.rung, Rung.height, Rung.reach, Power.rank]

/-- What is read as the left of a token is extended by the construct that the token starts. -/
theorem Opens.extended {j n : Nat} {bound : Power} {t s : Tree} {us : List String} {f g : Face}
    {fs gs hs : List Face} {Q : Expr → Prop} (h : Opens j t us) (hbound : Admits bound j)
    (hclear : Clear j g) (hrank : bound.rank < rank g) (hn : us.length + fs.length ≤ n)
    (hlen : gs.length < fs.length)
    (hstep : ∀ e, t.Is e →
      Takes (extend (expression n) e (Power.ofKind g.1)) (g :: fs) (f :: gs) s.Is)
    (hrest : ∀ m e, s.Is e → gs.length + 1 < m →
      Takes (extensions (expression n) bound m e) (f :: gs) hs Q) :
    Takes (expression (n + 1) bound) (us.map spelled ++ g :: fs) hs Q := by
  refine h bound n g fs hs Q hbound hclear hn fun m e he hm => ?_
  cases m with
  | zero => exact absurd hm (Nat.not_lt_zero _)
  | succ m =>
    exact takes_extensions_step hrank (hstep e he) fun e' he' => hrest m e' he' (by omega)

theorem takes_chain {n m : Nat} {bound : Power} {op : BoolOp} {values ts : List Tree} {left : Expr}
    {vs : List String} {f : Face} {gs hs : List Face} {Q : Expr → Prop}
    (hleft : ChainSoFar op values left) (hbound : bound.rank ≤ op.rung.height)
    (hf : rank f ≤ op.rung.height)
    (h : Introduced Readable (ts.map ([op.word], ·)) vs (op.rung.height + 1))
    (hn : vs.length + gs.length ≤ n) (hm : vs.length + gs.length + 1 < m)
    (hrest : ∀ m e, ChainSoFar op (values ++ ts) e → gs.length + 1 < m →
      Takes (extensions (expression n) bound m e) (f :: gs) hs Q) :
    Takes (extensions (expression n) bound m left) (vs.map spelled ++ f :: gs) hs Q := by
  induction ts generalizing values left vs m with
  | nil =>
    cases h
    rw [List.append_nil] at hrest
    exact hrest m left hleft (by simpa using hm)
  | cons t ts ih =>
    cases h with
    | @cons _ _ us ws _ _ ht hmore =>
      obtain ⟨g, hs', hfirst, hg, hlength⟩ := exists_first_of_introduced
        (P := fun f => rank f ≤ op.rung.height + 1) hmore gs (Nat.le_succ_of_le hf)
        (List.forall_mem_map.2 fun _ _ => ⟨op.word, [], rfl, Nat.le_of_eq (rank_boolean op)⟩)
      have hp : (Power.ofKind (spelled op.word).1).rank = op.rung.height + 1 := rank_boolean op
      simp only [List.length_append, List.length_cons, List.length_nil] at hn hm
      have hread := ht.2 (Power.ofKind (spelled op.word).1) n g hs' (admits_of_le (Nat.le_of_eq hp))
        (by rw [hp]; exact hg) (by omega)
      obtain ⟨w, us', rfl, _⟩ := exists_first_of_spells ht.1
      have hlist : ([op.word] ++ (w :: us' ++ ws)).map spelled ++ f :: gs =
          spelled op.word :: ((w :: us').map spelled ++ g :: hs') := by
        rw [← hfirst]
        simp
      rw [hlist]
      cases m with
      | zero => exact absurd hm (Nat.not_lt_zero _)
      | succ m =>
        refine takes_extensions_step (by rw [rank_boolean]; exact Nat.lt_succ_of_le hbound)
          (takes_extend_boolean hleft hread) fun e he => ?_
        rw [← hfirst]
        refine ih he hmore (by omega) (by omega) fun m e he hm => hrest m e ?_ hm
        rwa [List.append_assoc] at he

section Cases

variable {k : Nat} {t : Tree} {us vs ws : List String}

theorem opens_name {name : String} (h : IsName name) : Opens k (.name name) [name] := by
  intro bound n f gs hs Q _ _ _ hrest
  rw [List.map_singleton, spelled_name h]
  exact takes_expression (takes_name.imp fun e he => .name he) hrest

theorem opens_parens (h : Readable 0 t us) : Opens k t ("(" :: (us ++ [")"])) := by
  intro bound n f gs hs Q _ _ hn hrest
  obtain ⟨hspells, hfits⟩ := h
  obtain ⟨w, us, rfl, hstart, _⟩ := exists_first_of_spells hspells
  simp only [List.map_cons, List.map_append, List.map_nil, List.length_cons, List.length_append,
    List.length_nil, List.cons_append, List.append_assoc, List.nil_append] at hn ⊢
  refine takes_expression (takes_grouping (fun hw => by rw [hw] at hstart; cases hstart) ?_) hrest
  refine hfits .lowest n (spelled ")") (f :: gs) (admits_of_le (Nat.le_refl _)) ?_ ?_
  · rw [spelled_closeParen]
    exact Nat.le_refl _
  · simp only [List.length_cons]
    omega

theorem opens_binary {l r : Tree} {op : BinaryOp} (hop : op ≠ .pow) (hk : k ≤ op.rung.height)
    (hl : Opens op.rung.height l us) (hr : Readable (op.rung.height + 1) r vs) :
    Opens k (.binary l op r) (us ++ op.symbol :: vs) := by
  intro bound n f gs hs Q hbound hclear hn hrest
  obtain ⟨hspells, hfits⟩ := hr
  obtain ⟨w, vs, rfl, _⟩ := exists_first_of_spells hspells
  have hreach : bound.rank ≤ op.rung.height := (hbound op.rung hk).trans (reach_binary op)
  have hhold : rank f ≤ op.rung.height + 1 := (hclear op.rung hk).trans (hold_binary op)
  have hp : (Power.ofKind (spelled op.symbol).1).rank = op.rung.height + 1 := rank_symbol op
  simp only [List.map_cons, List.map_append, List.length_cons, List.length_append,
    List.cons_append, List.append_assoc] at hn ⊢
  have hread := hfits (Power.ofKind (spelled op.symbol).1) n f gs (admits_of_le (Nat.le_of_eq hp))
    (hp ▸ hhold) (by rw [List.length_cons]; omega)
  refine hl.extended (hbound.mono hk) (clear_symbol hop)
    (by rw [rank_symbol]; exact Nat.lt_succ_of_le hreach) (by simp +arith; omega) (by simp +arith)
    (fun e he => ?_) hrest
  exact (takes_extend_binary hop hread).imp fun e' h => by
    obtain ⟨r, hr, he'⟩ := h
    exact .binary he hr he'

theorem opens_power {l r : Tree} (hk : k ≤ Rung.power.height)
    (hl : Opens (Rung.power.height + 1) l us) (hr : Readable Rung.unary.height r vs) :
    Opens k (.binary l .pow r) (us ++ BinaryOp.pow.symbol :: vs) := by
  intro bound n f gs hs Q hbound hclear hn hrest
  obtain ⟨hspells, hfits⟩ := hr
  obtain ⟨w, vs, rfl, _⟩ := exists_first_of_spells hspells
  have hreach : bound.rank ≤ Rung.power.height := hbound .power hk
  simp only [List.map_cons, List.map_append, List.length_cons, List.length_append,
    List.cons_append, List.append_assoc] at hn ⊢
  have hread := hfits .unary n f gs (admits_unary .neg) (hclear .power hk)
    (by rw [List.length_cons]; omega)
  refine hl.extended (hbound.mono (Nat.le_succ_of_le hk))
    (clear_of_le (by rw [rank_symbol]; exact Nat.le_refl _))
    (by rw [rank_symbol]; exact Nat.lt_succ_of_le hreach) (by simp +arith; omega) (by simp +arith)
    (fun e he => ?_) hrest
  exact (takes_extend_power hread).imp fun e' h => by
    obtain ⟨r, hr, he'⟩ := h
    exact .binary he hr he'

theorem opens_unary {op : UnaryOp} (hk : k ≤ op.rung.height) (h : Readable op.rung.height t us) :
    Opens k (.unary op t) (op.word :: us) := by
  intro bound n f gs hs Q _ hclear hn hrest
  obtain ⟨hspells, hfits⟩ := h
  obtain ⟨w, us, rfl, _⟩ := exists_first_of_spells hspells
  have hf : rank f ≤ (boundOfUnary op).rank := (hclear op.rung hk).trans (by cases op <;> decide)
  simp only [List.map_cons, List.length_cons, List.cons_append] at hn ⊢
  have hread := hfits (boundOfUnary op) n f gs (admits_unary op) hf (by rw [List.length_cons]; omega)
  refine takes_expression ((takes_unary hread).imp fun e h => ?_) hrest
  obtain ⟨x, hx, he⟩ := h
  exact .unary hx he

theorem opens_boolean {op : BoolOp} {ts : List Tree} (hk : k ≤ op.rung.height)
    (hflat : ¬ t.isChainOf op) (h : Opens (op.rung.height + 1) t us) (hne : ts ≠ [])
    (hts : Introduced Readable (ts.map ([op.word], ·)) vs (op.rung.height + 1)) :
    Opens k (.boolean op (t :: ts)) (us ++ vs) := by
  intro bound n f gs hs Q hbound hclear hn hrest
  have hreach : bound.rank ≤ op.rung.height := (hbound op.rung hk).trans (by cases op <;> decide)
  have hf : rank f ≤ op.rung.height := (hclear op.rung hk).trans (by cases op <;> decide)
  obtain ⟨g, hs', hfirst, hg, hlength⟩ := exists_first_of_introduced
    (P := fun f => rank f ≤ op.rung.height + 1) hts gs (Nat.le_succ_of_le hf)
    (List.forall_mem_map.2 fun _ _ => ⟨op.word, [], rfl, Nat.le_of_eq (rank_boolean op)⟩)
  rw [List.length_append] at hn
  rw [List.map_append, List.append_assoc, hfirst]
  refine h bound n g hs' hs Q (hbound.mono (Nat.le_succ_of_le hk)) (clear_of_le hg) (by omega)
    fun m e he hm => ?_
  rw [← hfirst]
  refine takes_chain (.inl ⟨t, rfl, he, hflat⟩) hreach hf hts (by omega) (by omega) fun m e he => ?_
  obtain ⟨u, hu, _⟩ | ⟨_, he⟩ := he
  · exact absurd (List.cons.inj hu).2 hne
  · exact hrest m e he

theorem opens_comparison {rest : List (CompareOp × Tree)} (hk : k ≤ Rung.comparison.height)
    (h : Opens (Rung.comparison.height + 1) t us) (hne : rest ≠ [])
    (hrest : Introduced Readable (rest.map fun r => (r.1.words, r.2)) vs
      (Rung.comparison.height + 1)) : Opens k (.comparison t rest) (us ++ vs) := by
  intro bound n f gs hs Q hbound hclear hn hmore
  have hreach : bound.rank ≤ Rung.comparison.height := hbound .comparison hk
  have hf : rank f ≤ 5 := hclear .comparison hk
  have hpos := Nat.lt_of_lt_of_le (List.length_pos_iff.2 hne)
    (hrest.length_le fun r => isLead_words r.1)
  have hfirst : ∃ g hs', vs.map spelled ++ f :: gs = g :: hs' ∧ rank g = 6 ∧ 
      hs'.length = vs.length + gs.length := by
    obtain ⟨r, rest, rfl⟩ := List.exists_cons_of_ne_nil hne
    cases hrest with
    | cons ht hrest =>
      obtain ⟨w, us', hw, hrank⟩ := rank_words r.1
      rw [hw]
      exact ⟨spelled w, _, rfl, hrank, by simp +arith⟩
  obtain ⟨g, hs', hfirst, hg, hlength⟩ := hfirst
  rw [List.length_append] at hn
  rw [List.map_append, List.append_assoc, hfirst]
  refine h.extended (hbound.mono (Nat.le_succ_of_le hk)) (clear_of_le (Nat.le_of_eq hg))
    (by rw [hg]; exact Nat.lt_succ_of_le hreach) (by omega) (by omega) (fun e he => ?_) hmore
  rw [← hfirst]
  exact takes_extend_comparison he hf hrest hne (by omega)

theorem opens_conditional {test body orelse : Tree} (hk : k ≤ Rung.conditional.height)
    (hbody : Opens (Rung.conditional.height + 1) body us)
    (htest : Readable (Rung.conditional.height + 1) test vs)
    (horelse : Readable Rung.conditional.height orelse ws) :
    Opens k (.conditional test body orelse) (us ++ "if" :: (vs ++ "else" :: ws)) := by
  intro bound n f gs hs Q hbound hclear hn hrest
  have hreach : bound.rank ≤ Rung.conditional.height := hbound .conditional hk
  obtain ⟨w, vs, rfl, _⟩ := exists_first_of_spells htest.1
  obtain ⟨v, ws, rfl, _⟩ := exists_first_of_spells horelse.1
  have hif : rank (spelled "if") = 2 := by rw [spelled_if]; rfl
  have helse : rank (spelled "else") = 0 := by rw [spelled_else]; rfl
  simp only [List.map_cons, List.map_append, List.length_cons, List.length_append,
    List.cons_append, List.append_assoc] at hn ⊢
  have hp : Power.ofKind (spelled "if").1 = .ternary := by rw [spelled_if]; rfl
  have hread := htest.2 .ternary n (spelled "else") (spelled v :: (ws.map spelled ++ f :: gs))
    (admits_of_le (Nat.le_refl _)) (by rw [helse]; exact Nat.zero_le _) (by simp +arith; omega)
  have hread' := horelse.2 .comma n f gs (admits_of_le (Nat.le_refl _)) (hclear .conditional hk)
    (by rw [List.length_cons]; omega)
  refine hbody.extended (hbound.mono (Nat.le_succ_of_le hk)) (clear_of_le (Nat.le_of_eq hif))
    (by rw [hif]; exact Nat.lt_succ_of_le hreach) (by simp +arith; omega) (by simp +arith)
    (fun e he => ?_) hrest
  rw [hp]
  exact (takes_extend_conditional hread hread').imp fun e' h => by
    obtain ⟨x, o, hx, ho, he'⟩ := h
    exact .conditional hx he ho he'

theorem opens_member {attr : String} (hk : k ≤ Rung.trailer.height)
    (h : Opens Rung.trailer.height t us) (hattr : IsName attr) :
    Opens k (.member t attr) (us ++ [".", attr]) := by
  intro bound n f gs hs Q hbound hclear hn hrest
  have hreach : bound.rank ≤ Rung.trailer.height := hbound .trailer hk
  have hrank : rank (spelled ".") = 16 := by rw [spelled_dot]; rfl
  simp only [List.map_cons, List.map_append, List.length_cons, List.length_append, List.map_nil,
    List.length_nil, List.cons_append, List.append_assoc, List.nil_append] at hn ⊢
  refine h.extended (hbound.mono hk) (clear_trailer _)
    (by rw [hrank]; exact Nat.lt_of_le_of_lt hreach (by decide)) (by simp +arith; omega)
    (by simp +arith) (fun e he => ?_) hrest
  exact (takes_extend_member hattr).imp fun e' he' => .member he he'

theorem opens_subscript {index : Tree} (hk : k ≤ Rung.trailer.height)
    (h : Opens Rung.trailer.height t us) (hindex : Readable 0 index vs) :
    Opens k (.subscript t index) (us ++ "[" :: (vs ++ ["]"])) := by
  intro bound n f gs hs Q hbound hclear hn hrest
  have hreach : bound.rank ≤ Rung.trailer.height := hbound .trailer hk
  have hrank : rank (spelled "[") = 15 := by rw [spelled_openBracket]; rfl
  obtain ⟨w, vs, rfl, hstart, _⟩ := exists_first_of_spells hindex.1
  simp only [List.map_cons, List.map_append, List.length_cons, List.length_append, List.map_nil,
    List.length_nil, List.cons_append, List.append_assoc, List.nil_append] at hn ⊢
  have hread := hindex.2 .lowest n (spelled "]") (f :: gs) (admits_of_le (Nat.le_refl _))
    (by rw [spelled_closeBracket]; exact Nat.le_refl _) (by simp +arith; omega)
  refine h.extended (hbound.mono hk) (clear_trailer _)
    (by rw [hrank]; exact Nat.lt_succ_of_le hreach) (by simp +arith; omega) (by simp +arith)
    (fun e he => ?_) hrest
  refine (takes_extend_subscript (fun hw => by rw [hw] at hstart; cases hstart) hread).imp
    fun e' h => ?_
  obtain ⟨i, hi, he'⟩ := h
  exact .subscript he hi he'

theorem opens_call {args : List Tree} (hk : k ≤ Rung.trailer.height)
    (h : Opens Rung.trailer.height t us)
    (hargs : ∀ n m gs, vs.length + gs.length < n → vs.length < m →
      Takes (commaListUpTo (at? .closeParen) (argument (expression n)) m)
        (vs.map spelled ++ spelled ")" :: gs) (spelled ")" :: gs)
        fun as => ∃ es, as = es.map .inl ∧ List.Forall₂ Tree.Is args es) :
    Opens k (.call t args) (us ++ "(" :: (vs ++ [")"])) := by
  intro bound n f gs hs Q hbound hclear hn hrest
  have hreach : bound.rank ≤ Rung.trailer.height := hbound .trailer hk
  have hrank : rank (spelled "(") = 15 := by rw [spelled_openParen]; rfl
  simp only [List.map_cons, List.map_append, List.length_cons, List.length_append, List.map_nil,
    List.length_nil, List.cons_append, List.append_assoc, List.nil_append] at hn ⊢
  refine h.extended (hbound.mono hk) (clear_trailer _)
    (by rw [hrank]; exact Nat.lt_succ_of_le hreach) (by simp +arith; omega) (by simp +arith)
    (fun e he => ?_) hrest
  refine takes_call he (fun m hm => hargs n m (f :: gs) ?_ ?_) (by simp)
  · rw [List.length_cons]
    omega
  · simp only [List.length_append, List.length_map, List.length_cons] at hm
    omega

end Cases

/-- Every spelling is read as the left of what follows it. -/
theorem opens_of_spells {k : Nat} {t : Tree} {us : List String} (h : Spells k t us) : Opens k t us := by
  refine Spells.strong (P := Opens) (fun {k t us} h ih => ?_) h
  have hread {j : Nat} {s : Tree} {vs : List String} (hs : Spells j s vs)
      (hlen : vs.length < us.length) : Readable j s vs :=
    ⟨hs, (ih hlen hs).fits⟩
  have hmore {α : Type} {f : α → List String × Tree} {as : List α} {vs : List String} {j : Nat}
      (h : Introduced Spells (as.map f) vs j) (hle : vs.length ≤ us.length)
      (hlead : ∀ a, IsLead (f a).1) : Introduced Readable (as.map f) vs j :=
    h.imp (List.forall_mem_map.2 fun a _ => (hlead a).1) fun hlen hs =>
      hread hs (Nat.lt_of_lt_of_le hlen hle)
  cases h with
  | parens h => exact opens_parens (hread h (by simp +arith))
  | name h => exact opens_name h
  | binary hop hk hl hr =>
    exact opens_binary hop hk (ih (by simp) hl) (hread hr (by simp +arith))
  | power hk hl hr => exact opens_power hk (ih (by simp) hl) (hread hr (by simp +arith))
  | unary hk h => exact opens_unary hk (hread h (by simp))
  | boolean hk hflat h hne hts =>
    have hpos := Nat.lt_of_lt_of_le (List.length_pos_iff.2 hne)
      (hts.length_le fun _ => isLead_boolean _)
    exact opens_boolean hk hflat (ih (by simpa using hpos) h) hne
      (hmore hts (by simp) fun _ => isLead_boolean _)
  | comparison hk h hne hrest =>
    have hpos := Nat.lt_of_lt_of_le (List.length_pos_iff.2 hne)
      (hrest.length_le fun r => isLead_words r.1)
    exact opens_comparison hk (ih (by simpa using hpos) h) hne
      (hmore hrest (by simp) fun r => isLead_words r.1)
  | conditional hk hbody htest horelse =>
    exact opens_conditional hk (ih (by simp) hbody) (hread htest (by simp +arith))
      (hread horelse (by simp +arith))
  | member hk h hattr => exact opens_member hk (ih (by simp) h) hattr
  | subscript hk h hindex =>
    exact opens_subscript hk (ih (by simp) h) (hread hindex (by simp +arith))
  | @callNone k t us hk h =>
    have hcall : Opens k (.call t []) (us ++ "(" :: ([] ++ [")"])) :=
      opens_call hk (ih (by simp) h) fun n m gs _ hm => takes_no_arguments hm
    exact hcall
  | @call k t arg args us vs ws hk h harg hargs =>
    have hlist : us ++ "(" :: (vs ++ (ws ++ [")"])) = us ++ "(" :: ((vs ++ ws) ++ [")"]) := by
      rw [List.append_assoc]
    have hargs' := hmore hargs (by simp +arith) fun _ => isLead_comma
    have hle := hargs.length_le fun _ => isLead_comma
    have harg' := hread harg (by simp +arith)
    rw [hlist]
    refine opens_call hk (ih (by simp) h) fun n m gs hn hm => ?_
    rw [List.length_append] at hn hm
    rw [List.map_append, List.append_assoc]
    exact takes_arguments harg' hargs' (by omega) (by omega)

def lineEnd : List Face :=
  [(.newline, "\n"), (.eof, "EOF")]

def IsExpression (t : Tree) (s : Stmt) : Prop :=
  ∃ e, t.Is e ∧ s.form = .expr e

theorem Takes.stmtFrom {fs : List Face} (place : Position) (form : StmtForm Stmt) :
    Takes (stmtFrom place form) fs fs fun s => s.form = form := by
  refine Takes.get.bind fun _ _ c hc => ?_
  exact ⟨⟨c.nextId, form, _⟩, { c with nextId := c.nextId + 1 }, rfl, hc, rfl⟩

theorem takes_expressionStmt {sub : Sub} {t : Tree} {fs : List Face}
    (h : Takes (sub .lowest) fs lineEnd t.Is) :
    Takes (expressionStmt sub) fs lineEnd (IsExpression t) := by
  have hlist : Takes (exprList sub) fs lineEnd t.Is := by
    refine Takes.start.bind fun _ _ => h.bind fun e he => (Takes.at? .comma).bind fun b hb => ?_
    rw [hb, if_neg (by decide)]
    exact .pure he
  refine Takes.start.bind fun _ _ => hlist.bind fun e he => Takes.kind.bind fun k hk => ?_
  rw [hk]
  exact (Takes.pure rfl).bind fun form hform => (Takes.stmtFrom _ _).imp fun s hs =>
    ⟨e, he, hs.trans hform.symm⟩

theorem takes_simpleLine {sub : Sub} {t : Tree} {f : Face} {fs : List Face}
    (hf : startsSpelling f.1 = true) (h : Takes (sub .lowest) (f :: fs) lineEnd t.Is) :
    Takes (simpleLine sub) (f :: fs) [(.eof, "EOF")] fun ss => ∃ s, ss = [s] ∧ IsExpression t s := by
  have hstmt : Takes (simpleStmt sub) (f :: fs) lineEnd (IsExpression t) := by
    refine .of_run (y := expressionStmt sub) (fun _ _ _ _ _ => ?_) (takes_expressionStmt h)
    generalize f.1 = k at hf ⊢
    cases k <;> first | rfl | cases hf
  have hmore {step : Parser (Option Stmt)} (hstep : Takes step lineEnd lineEnd (· = none)) :
      Takes (collect step) lineEnd lineEnd (· = []) := by
    refine .collect fun m hm => ?_
    cases m with
    | zero => exact absurd hm (Nat.not_lt_zero _)
    | succ m =>
      refine hstep.bind fun o ho => ?_
      rw [ho]
      exact .pure rfl
  refine hstmt.bind fun s hs => (hmore ?_).bind fun more hm => ?_
  · refine (Takes.eat_other (f := (.newline, "\n")) (by decide)).bind fun b hb => ?_
    rw [hb, if_neg Bool.false_ne_true]
    exact .pure rfl
  · refine (Takes.eat (k := .newline) rfl).bind fun b hb => ?_
    rw [hb, hm, if_pos rfl]
    exact .pure ⟨s, rfl, hs⟩

theorem takes_line {sub : Sub} {n : Nat} {t : Tree} {f : Face} {fs : List Face}
    (hf : startsSpelling f.1 = true) (h : Takes (sub .lowest) (f :: fs) lineEnd t.Is) :
    Takes (line sub (n + 1)) (f :: fs) [(.eof, "EOF")] fun ss => ∃ s, ss = [s] ∧ IsExpression t s := by
  refine .of_run (y := simpleLine sub) (fun _ _ _ _ _ => ?_) (takes_simpleLine hf h)
  generalize f.1 = k at hf ⊢
  cases k <;> first | rfl | cases hf

def nextLine (n : Nat) : Parser (Option (List Stmt)) := do
  let c ← get
  if c.later.isEmpty || c.kind == .eof then return none
  else if ← eat .newline then return some []
  else return some (← line (expression n) n)

theorem takes_nextLine {n : Nat} {f : Face} {fs gs : List Face} {P : List Stmt → Prop}
    (hf : startsSpelling f.1 = true) (hfs : fs ≠ [])
    (h : Takes (line (expression n) n) (f :: fs) gs P) :
    Takes (nextLine n) (f :: fs) gs fun o => ∃ ss, o = some ss ∧ P ss := by
  have hother {k : Kind} (hk : startsSpelling k = false) : f.1 ≠ k := by
    rintro rfl
    rw [hf] at hk
    cases hk
  refine Takes.get.bind fun c hc => ?_
  have hgoes : (c.later.isEmpty || c.kind == .eof) = false := by
    obtain ⟨current, later, passed, id⟩ := c
    obtain ⟨rfl, rfl⟩ := List.cons.inj hc
    have hlater : later.isEmpty = false :=
      List.isEmpty_eq_false_iff.2 fun hnil => hfs (by rw [hnil]; rfl)
    exact Bool.or_eq_false_iff.2 ⟨hlater, beq_eq_false_iff_ne.2 (hother rfl)⟩
  rw [hgoes, if_neg Bool.false_ne_true]
  refine (Takes.eat_other (hother rfl)).bind fun b hb => ?_
  rw [hb, if_neg Bool.false_ne_true]
  exact h.bind fun ss hss => .pure ⟨ss, rfl, hss⟩

theorem takes_no_nextLine {n : Nat} {f : Face} : Takes (nextLine n) [f] [f] (· = none) := by
  refine Takes.get.bind fun c hc => ?_
  have hstops : (c.later.isEmpty || c.kind == .eof) = true := by
    obtain ⟨current, later, passed, id⟩ := c
    have hlater := (List.cons.inj hc).2
    rw [List.map_eq_nil_iff.1 hlater]
    rfl
  rw [hstops, if_pos rfl]
  exact .pure rfl

theorem takes_moduleBody {t : Tree} {f : Face} {fs : List Face} (hf : startsSpelling f.1 = true)
    (hfs : fs ≠ [])
    (h : ∀ n, fs.length < n → Takes (expression n .lowest) (f :: fs) lineEnd t.Is) :
    Takes moduleBody (f :: fs) [(.eof, "EOF")] fun ss => ∃ s, ss = [s] ∧ IsExpression t s := by
  refine Takes.get.bind fun c hc => ?_
  have hline := takes_line (n := fs.length + 1) hf (h (fs.length + 2) (by omega))
  rw [Takes.budget_of_faces hc]
  have hlines : Takes (collect (nextLine (fs.length + 2))) (f :: fs) [(.eof, "EOF")]
      fun lines => ∃ s, lines = [[s]] ∧ IsExpression t s := by
    refine .collect fun m hm => ?_
    match m, hm with
    | m + 2, _ =>
      refine (takes_nextLine hf hfs hline).bind fun o ho => ?_
      obtain ⟨_, rfl, s, rfl, hs⟩ := ho
      refine Takes.bind (P := (· = [])) ?_ fun more hmore => .pure ⟨s, by rw [hmore], hs⟩
      refine takes_no_nextLine.bind fun o ho => ?_
      rw [ho]
      exact .pure rfl
  refine hlines.bind fun lines hlines => .pure ?_
  obtain ⟨s, rfl, hs⟩ := hlines
  exact ⟨s, rfl, hs⟩

theorem takes_moduleBody_of_spells {t : Tree} {us : List String} (h : Spells 0 t us) :
    Takes moduleBody (us.map spelled ++ lineEnd) [(.eof, "EOF")]
      fun ss => ∃ s, ss = [s] ∧ IsExpression t s := by
  have hfits := (opens_of_spells h).fits
  obtain ⟨w, vs, rfl, hstart, _⟩ := exists_first_of_spells h
  refine takes_moduleBody hstart (by simp [lineEnd]) fun n hn =>
    hfits .lowest n (.newline, "\n") [(.eof, "EOF")] (admits_of_le (Nat.le_refl _)) (Nat.le_refl _) ?_
  change (vs.map spelled ++ lineEnd).length < n at hn
  simp only [lineEnd, List.length_append, List.length_map, List.length_cons, List.length_nil] at hn ⊢
  omega

theorem faces_ofTokens {tokens : List Token} {fs : List Face} (file : String)
    (h : tokens.map face = fs ++ [(.eof, "EOF")]) :
    (Cursor.ofTokens tokens file).faces = tokens.map face := by
  obtain ⟨t, ts, rfl⟩ : ∃ t ts, tokens = t :: ts := by
    cases tokens with
    | nil => exact absurd h.symm (by simp)
    | cons t ts => exact ⟨t, ts, rfl⟩
  have hlast : ((t :: ts).getLast (List.cons_ne_nil t ts)).kind = .eof := by
    have hface := congrArg List.getLast? h
    rw [List.getLast?_map, List.getLast?_eq_some_getLast (List.cons_ne_nil t ts),
      List.getLast?_concat] at hface
    exact congrArg Prod.fst (Option.some.inj hface)
  unfold Cursor.ofTokens
  rw [List.getLast?_eq_some_getLast (List.cons_ne_nil t ts)]
  simp only [hlast, beq_self_eq_true, if_true]
  rfl

/-- Operators hold on to what the ladder says. A line that spells an expression tree, with parentheses
wherever the ladder requires them and anywhere else, is read as a module whose only statement is an
expression with that tree. -/
theorem ofSource_of_spells {t : Tree} {words : List String} {text ending : List Char} {file : String}
    (h : Spells 0 t words) (htext : Spaced words text) (hending : ending = [] ∨ ending = ['\n']) :
    ∃ m s e, Module.ofSource (String.ofList (text ++ ending)) file = .ok m ∧ m.body = [s] ∧
      s.form = .expr e ∧ t.Is e := by
  obtain ⟨tokens, htokens, hfaces⟩ :=
    Token.exists_tokenize_spaced file htext h.isWord hending
  have hend : words.map spelled ++ lineEnd = words.map spelled ++ [(.newline, "\n")] ++
      [(.eof, "EOF")] := by
    rw [List.append_assoc]
    rfl
  have hcursor : (Cursor.ofTokens tokens file).faces = words.map spelled ++ lineEnd :=
    (faces_ofTokens file (hfaces.trans hend)).trans hfaces
  obtain ⟨body, d, hrun, _, s, rfl, e, he, hform⟩ := takes_moduleBody_of_spells h _ hcursor
  refine ⟨⟨[s], file, ⟨⟨0, 1, 0, file⟩, d.start⟩⟩, s, e, ?_, rfl, hform, he⟩
  unfold Module.ofSource
  rw [htokens]
  change parse tokens file = _
  unfold parse
  rw [hrun]
  rfl

/-- A line with a power, a call, a comparison of two words and parentheses where they are needed. -/
theorem ofSource_of_spells_mixed :
    ∃ m s e, Module.ofSource "( a - b ) ** - c or f ( d , e ) is not g\n" "main.py" = .ok m ∧
      m.body = [s] ∧ s.form = .expr e ∧
      (Tree.boolean .or [.binary (.binary (.name "a") .sub (.name "b")) .pow (.unary .neg (.name "c")),
        .comparison (.call (.name "f") [.name "d", .name "e"]) [(.isNot, .name "g")]]).Is e := by
  have hname (word : String) (h : (word.toList.head?.any Text.startsName &&
      word.toList.all Text.continuesName && Kind.ofWord word == .identifier) = true) :
      IsName word := by
    simp only [Bool.and_eq_true, beq_iff_eq, List.all_eq_true] at h
    exact ⟨h.1.1, h.1.2, h.2⟩
  have hdifference : Spells 0 (.binary (.name "a") .sub (.name "b"))
      (["a"] ++ BinaryOp.sub.symbol :: ["b"]) :=
    .binary (by decide) (by decide) (.name (hname "a" (by decide +kernel)))
      (.name (hname "b" (by decide +kernel)))
  have hsign : Spells 12 (.unary .neg (.name "c")) (UnaryOp.neg.word :: ["c"]) :=
    .unary (by decide) (.name (hname "c" (by decide +kernel)))
  have hpower : Spells 3 (.binary (.binary (.name "a") .sub (.name "b")) .pow (.unary .neg (.name "c")))
      ["(", "a", "-", "b", ")", "**", "-", "c"] :=
    .power (by decide) (.parens hdifference) hsign
  have hmore : Introduced Spells ([Tree.name "e"].map ([","], ·)) ([","] ++ (["e"] ++ [])) 0 :=
    .cons (.name (hname "e" (by decide +kernel))) .nil
  have hcall : Spells 6 (.call (.name "f") [.name "d", .name "e"])
      (["f"] ++ "(" :: (["d"] ++ ([",", "e"] ++ [")"]))) :=
    .call (by decide) (.name (hname "f" (by decide +kernel))) (.name (hname "d" (by decide +kernel)))
      hmore
  have hcomparison : Spells 3 (.comparison (.call (.name "f") [.name "d", .name "e"])
      [(.isNot, .name "g")]) ["f", "(", "d", ",", "e", ")", "is", "not", "g"] :=
    .comparison (by decide) hcall nofun (.cons (Spells.name (hname "g" (by decide +kernel))) .nil)
  have hspells : Spells 0 (.boolean .or
      [.binary (.binary (.name "a") .sub (.name "b")) .pow (.unary .neg (.name "c")),
        .comparison (.call (.name "f") [.name "d", .name "e"]) [(.isNot, .name "g")]])
      (["(", "a", "-", "b", ")", "**", "-", "c"] ++
        (["or"] ++ (["f", "(", "d", ",", "e", ")", "is", "not", "g"] ++ []))) :=
    .boolean (by decide) nofun hpower nofun (.cons hcomparison .nil)
  obtain ⟨line, hspaced, htext⟩ : ∃ line, Spaced ["(", "a", "-", "b", ")", "**", "-", "c", "or", "f",
      "(", "d", ",", "e", ")", "is", "not", "g"] line ∧
      "( a - b ) ** - c or f ( d , e ) is not g\n" = String.ofList (line ++ ['\n']) :=
    ⟨_, .cons _ 0 <| .cons _ 0 <| .cons _ 0 <| .cons _ 0 <| .cons _ 0 <| .cons _ 0 <|
      .cons _ 0 <| .cons _ 0 <| .cons _ 0 <| .cons _ 0 <| .cons _ 0 <| .cons _ 0 <| .cons _ 0 <|
      .cons _ 0 <| .cons _ 0 <| .cons _ 0 <| .cons _ 0 <| .last _ 0, by decide +kernel⟩
  rw [htext]
  exact ofSource_of_spells hspells hspaced (.inr rfl)

end Grammar

end Credence

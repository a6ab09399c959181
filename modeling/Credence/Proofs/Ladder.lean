import Credence.Proofs.Taking

namespace Credence

open Token (Kind)

namespace Rung

/-- How tightly a token may bind that follows an operator of a rung with its last operand. -/
def hold : Rung → Nat
  | conditional => 1
  | or => 2
  | and => 3
  | not | comparison => 5
  | bitOr => 7
  | bitXor => 8
  | bitAnd => 9
  | shift => 10
  | additive => 11
  | multiplicative => 12
  | unary | power => 13
  | trailer => 17

/-- The tightest bound under which an operator of a rung is read; one that stands in front of its operand
always is. -/
def reach : Rung → Nat
  | not | unary => 17
  | rung => rung.height

end Rung

namespace Grammar

open Token (Face face spelled)

/-- How tightly a token binds to what is on its left. -/
def rank (f : Face) : Nat :=
  (Power.ofKind f.1).rank

/-- A token may follow an operand that stands on a height of the ladder or above. -/
def Clear (k : Nat) (f : Face) : Prop :=
  ∀ rung : Rung, k ≤ rung.height → rank f ≤ rung.hold

/-- A bound lets an operand be read that stands on a height of the ladder or above. -/
def Admits (bound : Power) (k : Nat) : Prop :=
  ∀ rung : Rung, k ≤ rung.height → bound.rank ≤ rung.reach

theorem rank_le (f : Face) : rank f ≤ 17 := by
  unfold rank
  generalize Power.ofKind f.1 = p
  cases p <;> decide

theorem admits_of_le {bound : Power} {k : Nat} (h : bound.rank ≤ k) : Admits bound k := by
  intro rung hk
  have hbound : bound.rank ≤ 17 := by cases bound <;> decide
  cases rung <;> simp only [Rung.reach, Rung.height] at hk ⊢ <;> omega

theorem clear_of_le {k : Nat} {f : Face} (h : rank f ≤ k) : Clear k f := by
  intro rung hk
  have hrank := rank_le f
  cases rung <;> simp only [Rung.hold, Rung.height] at hk ⊢ <;> omega

theorem Admits.clear {bound : Power} {k : Nat} {f : Face} (h : Admits bound k)
    (hf : rank f ≤ bound.rank) : Clear k f := by
  intro rung hk
  have hnot := h .comparison
  have hunary := h .power
  have hrung := h rung hk
  have hrank := rank_le f
  cases rung <;> simp only [Rung.hold, Rung.reach, Rung.height] at * <;> omega

/-- An operand is read, and then what is read goes on as the left of what follows. -/
def Opens (k : Nat) (t : Tree) (us : List String) : Prop :=
  ∀ (bound : Power) (n : Nat) (f : Face) (gs hs : List Face) (Q : Expr → Prop),
    Admits bound k → Clear k f → us.length + gs.length ≤ n →
    (∀ m e, t.Is e → gs.length + 1 < m →
      Takes (extensions (expression n) bound m e) (f :: gs) hs Q) →
    Takes (expression (n + 1) bound) (us.map spelled ++ f :: gs) hs Q

/-- An operand is read up to a token at which the bound stops. -/
def Fits (k : Nat) (t : Tree) (us : List String) : Prop :=
  ∀ (bound : Power) (n : Nat) (f : Face) (gs : List Face),
    Admits bound k → rank f ≤ bound.rank → us.length + gs.length < n →
    Takes (expression n bound) (us.map spelled ++ f :: gs) (f :: gs) t.Is

section Extensions

variable {sub : Sub} {bound : Power} {m n : Nat} {left : Expr} {t : Tree} {f g : Face}
  {fs gs hs : List Face} {P Q : Expr → Prop}

theorem takes_extensions_stop (hf : rank f ≤ bound.rank) (hleft : Q left) :
    Takes (extensions sub bound (m + 1) left) (f :: gs) (f :: gs) Q := by
  refine Takes.kind.bind fun k hk => ?_
  rw [hk]
  change Takes (if rank f ≤ bound.rank then _ else _) _ _ _
  rw [if_pos hf]
  exact .pure hleft

theorem takes_extensions_step (hf : bound.rank < rank f)
    (hx : Takes (extend sub left (Power.ofKind f.1)) (f :: fs) gs P)
    (hrest : ∀ e, P e → Takes (extensions sub bound m e) gs hs Q) :
    Takes (extensions sub bound (m + 1) left) (f :: fs) hs Q := by
  refine Takes.kind.bind fun k hk => ?_
  rw [hk]
  change Takes (if rank f ≤ bound.rank then _ else _) _ _ _
  rw [if_neg (Nat.not_le.2 hf)]
  exact hx.bind hrest

theorem takes_expression (hx : Takes (operand (expression n)) fs (f :: gs) t.Is)
    (hrest : ∀ m e, t.Is e → gs.length + 1 < m →
      Takes (extensions (expression n) bound m e) (f :: gs) hs Q) :
    Takes (expression (n + 1) bound) fs hs Q := by
  refine hx.bind fun e he => Takes.get.bind fun c hc => hrest _ e he ?_
  rw [Takes.budget_of_faces hc]
  exact Nat.lt_succ_self _

end Extensions

theorem Opens.fits {k : Nat} {t : Tree} {us : List String} (h : Opens k t us) : Fits k t us := by
  intro bound n f gs hbound hf hn
  cases n with
  | zero => exact absurd hn (Nat.not_lt_zero _)
  | succ n =>
    refine h bound n f gs (f :: gs) t.Is hbound (hbound.clear hf) (by omega) fun m e he hm => ?_
    cases m with
    | zero => exact absurd hm (Nat.not_lt_zero _)
    | succ m => exact takes_extensions_stop hf he

def kindOfBinary : BinaryOp → Kind
  | .add => .plus
  | .sub => .dash
  | .mult => .star
  | .matMult => .atSign
  | .div => .slash
  | .floorDiv => .doubleSlash
  | .mod => .percent
  | .pow => .doubleStar
  | .shiftLeft => .shiftLeft
  | .shiftRight => .shiftRight
  | .bitOr => .pipe
  | .bitXor => .caret
  | .bitAnd => .ampersand

def kindOfUnary : UnaryOp → Kind
  | .not => .kwNot
  | .neg => .dash
  | .pos => .plus
  | .invert => .tilde

def kindOfBoolean : BoolOp → Kind
  | .and => .kwAnd
  | .or => .kwOr

def fixedFaces : List Face :=
  [(.openParen, "("), (.closeParen, ")"), (.openBracket, "["), (.closeBracket, "]"), (.dot, "."),
    (.comma, ","), (.plus, "+"), (.dash, "-"), (.star, "*"), (.atSign, "@"), (.slash, "/"),
    (.doubleSlash, "//"), (.percent, "%"), (.doubleStar, "**"), (.shiftLeft, "<<"), (.shiftRight, ">>"),
    (.pipe, "|"), (.caret, "^"), (.ampersand, "&"), (.tilde, "~"), (.equals, "=="), (.notEquals, "!="),
    (.less, "<"), (.lessEquals, "<="), (.greater, ">"), (.greaterEquals, ">="), (.kwIs, "is"),
    (.kwIn, "in"), (.kwNot, "not"), (.kwAnd, "and"), (.kwOr, "or"), (.kwIf, "if"), (.kwElse, "else")]

theorem map_spelled_fixedWords : fixedWords.map spelled = fixedFaces := by
  decide +kernel

theorem spelled_of_mem {k : Kind} {w : String} (h : (k, w) ∈ fixedFaces) : spelled w = (k, w) := by
  rw [← map_spelled_fixedWords] at h
  obtain ⟨v, -, hv⟩ := List.mem_map.1 h
  rwa [show v = w from congrArg Prod.snd hv] at hv

theorem spelled_symbol (op : BinaryOp) : spelled op.symbol = (kindOfBinary op, op.symbol) := by
  refine spelled_of_mem ?_
  cases op <;> simp [fixedFaces, kindOfBinary, BinaryOp.symbol]

theorem spelled_unary (op : UnaryOp) : spelled op.word = (kindOfUnary op, op.word) := by
  refine spelled_of_mem ?_
  cases op <;> simp [fixedFaces, kindOfUnary, UnaryOp.word]

theorem spelled_boolean (op : BoolOp) : spelled op.word = (kindOfBoolean op, op.word) := by
  refine spelled_of_mem ?_
  cases op <;> simp [fixedFaces, kindOfBoolean, BoolOp.word]

theorem spelled_openParen : spelled "(" = (.openParen, "(") :=
  spelled_of_mem (by simp [fixedFaces])

theorem spelled_closeParen : spelled ")" = (.closeParen, ")") :=
  spelled_of_mem (by simp [fixedFaces])

theorem spelled_openBracket : spelled "[" = (.openBracket, "[") :=
  spelled_of_mem (by simp [fixedFaces])

theorem spelled_closeBracket : spelled "]" = (.closeBracket, "]") :=
  spelled_of_mem (by simp [fixedFaces])

theorem spelled_dot : spelled "." = (.dot, ".") :=
  spelled_of_mem (by simp [fixedFaces])

theorem spelled_comma : spelled "," = (.comma, ",") :=
  spelled_of_mem (by simp [fixedFaces])

theorem spelled_if : spelled "if" = (.kwIf, "if") :=
  spelled_of_mem (by simp [fixedFaces])

theorem spelled_else : spelled "else" = (.kwElse, "else") :=
  spelled_of_mem (by simp [fixedFaces])

theorem spelled_name {name : String} (h : IsName name) : spelled name = (.identifier, name) := by
  unfold spelled
  rw [Token.ofSpelling_of_startsName h.starts, h.unreserved]

section Constructs

variable {sub : Sub} {left : Expr} {p : Power} {f g : Face} {fs gs : List Face} {P : Expr → Prop}
  {name : String}

theorem takes_name : Takes (operand sub) ((.identifier, name) :: f :: fs) (f :: fs)
    fun e => e.form = .name name := by
  refine .of_run (y := primary) (fun _ _ _ _ _ => rfl) ?_
  refine Takes.get.bind fun c hc => ?_
  obtain ⟨⟨kind, value, span⟩, later, passed, id⟩ := c
  have hface := (List.cons.inj hc).1
  cases hface
  exact Takes.advance.bind fun _ _ => .mkExpr _ _

theorem takes_binary {op : BinaryOp} (hx : Takes (sub p) (f :: fs) gs P) :
    Takes (binary sub left p) ((kindOfBinary op, op.symbol) :: f :: fs) gs
      fun e => ∃ r, P r ∧ e.form = .binOp left op r := by
  refine Takes.advance.bind fun token ht => ?_
  have hkind : token.kind = kindOfBinary op := congrArg Prod.fst ht
  have hop : binaryOp? token.kind = some op := by
    rw [hkind]
    cases op <;> rfl
  rw [hop]
  exact hx.bind fun r hr => (Takes.exprAcross left r _).imp fun e he => ⟨r, hr, he⟩

theorem takes_extend_binary {op : BinaryOp} (hop : op ≠ .pow) (hx : Takes (sub p) (f :: fs) gs P) :
    Takes (extend sub left p) (spelled op.symbol :: f :: fs) gs
      fun e => ∃ r, P r ∧ e.form = .binOp left op r := by
  rw [spelled_symbol]
  refine .of_run (fun _ _ _ _ _ => ?_) (takes_binary hx)
  cases op <;> first | rfl | exact absurd rfl hop

theorem takes_extend_power (hx : Takes (sub .unary) (f :: fs) gs P) :
    Takes (extend sub left p) (spelled BinaryOp.pow.symbol :: f :: fs) gs
      fun e => ∃ r, P r ∧ e.form = .binOp left .pow r := by
  rw [spelled_symbol]
  refine .of_run (y := power sub left) (fun _ _ _ _ _ => rfl) ?_
  exact Takes.advance.bind fun _ _ => hx.bind fun r hr =>
    (Takes.exprAcross left r _).imp fun e he => ⟨r, hr, he⟩

def boundOfUnary : UnaryOp → Power
  | .not => .logicalNot
  | .neg | .pos | .invert => .unary

theorem takes_unary {op : UnaryOp} (hx : Takes (sub (boundOfUnary op)) (f :: fs) gs P) :
    Takes (operand sub) (spelled op.word :: f :: fs) gs
      fun e => ∃ x, P x ∧ e.form = .unaryOp op x := by
  rw [spelled_unary]
  by_cases hop : op = .not
  · subst hop
    refine .of_run (y := negation sub) (fun _ _ _ _ _ => rfl) ?_
    exact Takes.advance.bind fun _ _ => hx.bind fun x hx =>
      (Takes.exprFrom _ _).imp fun e he => ⟨x, hx, he⟩
  · refine .of_run (y := signed sub) (fun _ _ _ _ _ => ?_) ?_
    · cases op <;> first | rfl | exact absurd rfl hop
    · refine Takes.advance.bind fun token ht => ?_
      obtain ⟨kind, value, span⟩ := token
      cases ht
      cases op
      case not => exact absurd rfl hop
      all_goals exact hx.bind fun x hx => (Takes.mkExpr _ _).imp fun e he => ⟨x, hx, he⟩

theorem takes_extend_member (hname : IsName name) :
    Takes (extend sub left p) (spelled "." :: spelled name :: f :: fs) (f :: fs)
      fun e => e.form = .member left name := by
  rw [spelled_dot, spelled_name hname]
  refine .of_run (y := member left) (fun _ _ _ _ _ => rfl) ?_
  refine Takes.advance.bind fun _ _ => (Takes.expectOr (k := .identifier) rfl).bind fun token ht => ?_
  have hvalue : token.value = name := congrArg Prod.snd ht
  rw [hvalue]
  exact .exprFrom _ _

theorem takes_extend_conditional {vs ws : List Face} {P Q : Expr → Prop}
    (htest : Takes (sub p) (f :: fs) (spelled "else" :: g :: ws) P)
    (horelse : Takes (sub .comma) (g :: ws) vs Q) :
    Takes (extend sub left p) (spelled "if" :: f :: fs) vs
      fun e => ∃ t o, P t ∧ Q o ∧ e.form = .ifExp t left o := by
  rw [spelled_if]
  rw [spelled_else] at htest
  refine .of_run (y := ternary sub left p) (fun _ _ _ _ _ => rfl) ?_
  exact Takes.advance.bind fun _ _ => htest.bind fun t ht => (Takes.expect (k := .kwElse) rfl).bind fun _ _ =>
    horelse.bind fun o ho => (Takes.exprAcross left o _).imp fun e he => ⟨t, o, ht, ho, he⟩

theorem takes_startsClause (hfor : f.1 ≠ .kwFor) (hasync : f.1 ≠ .kwAsync) :
    Takes startsClause (f :: fs) (f :: fs) (· = false) := by
  refine (Takes.at? .kwFor).bind fun b hb => ?_
  rw [hb, beq_eq_false_iff_ne.2 hfor]
  refine Takes.get.bind fun c hc => .pure ?_
  have hkind : c.kind = f.1 := congrArg Prod.fst (List.cons.inj hc).1
  rw [hkind, beq_eq_false_iff_ne.2 hasync]
  rfl

theorem takes_grouping (hf : f.1 ≠ .closeParen)
    (hx : Takes (sub .lowest) (f :: fs) (spelled ")" :: g :: gs) P) :
    Takes (operand sub) (spelled "(" :: f :: fs) (g :: gs) P := by
  rw [spelled_openParen]
  rw [spelled_closeParen] at hx
  refine .of_run (y := grouping sub) (fun _ _ _ _ _ => rfl) ?_
  refine Takes.advance.bind fun _ _ => (Takes.eat_other hf).bind fun b hb => ?_
  rw [hb, if_neg Bool.false_ne_true]
  refine hx.bind fun e he => (takes_startsClause (by decide) (by decide)).bind fun b hb => ?_
  rw [hb, if_neg Bool.false_ne_true]
  refine (Takes.at? .comma).bind fun b hb => ?_
  rw [hb, if_neg (by decide)]
  exact (Takes.expect (k := .closeParen) rfl).bind fun _ _ => .pure he

theorem takes_extend_subscript (hf : f.1 ≠ .colon)
    (hx : Takes (sub .lowest) (f :: fs) (spelled "]" :: g :: gs) P) :
    Takes (extend sub left p) (spelled "[" :: f :: fs) (g :: gs)
      fun e => ∃ i, P i ∧ e.form = .subscript left i := by
  rw [spelled_openBracket]
  rw [spelled_closeBracket] at hx
  have hitem : Takes (sliceItem sub) (f :: fs) ((.closeBracket, "]") :: g :: gs) P := by
    refine Takes.start.bind fun _ _ => (Takes.at? .colon).bind fun b hb => ?_
    rw [hb, beq_eq_false_iff_ne.2 hf, if_neg Bool.false_ne_true]
    refine hx.bind fun e he => (Takes.at? .colon).bind fun b hb => ?_
    rw [hb, if_neg (by decide)]
    exact .pure he
  refine .of_run (y := subscript sub left) (fun _ _ _ _ _ => rfl) ?_
  refine Takes.advance.bind fun _ _ => Takes.start.bind fun _ _ => hitem.bind fun i hi =>
    (Takes.at? .comma).bind fun b hb => ?_
  rw [hb, if_neg (by decide)]
  exact (Takes.pure rfl).bind fun j hj => (Takes.expect (k := .closeBracket) rfl).bind fun _ _ =>
    (Takes.exprFrom _ _).imp fun e he => ⟨i, hi, hj ▸ he⟩

/-- An expression that has been read for some values of a chain: the first of them, or the chain so far. -/
def ChainSoFar (op : BoolOp) (values : List Tree) (e : Expr) : Prop :=
  (∃ t, values = [t] ∧ t.Is e ∧ ¬ t.isChainOf op) ∨
    (2 ≤ values.length ∧ (Tree.boolean op values).Is e)

theorem not_chain_of_is {op : BoolOp} {t : Tree} {e : Expr} {es : List Expr} (h : t.Is e)
    (ht : ¬ t.isChainOf op) : e.form ≠ .boolOp op es := by
  intro he
  cases h with
  | boolean hes he' =>
    rw [he] at he'
    cases he'
    exact ht rfl
  | name he' | binary _ _ he' | unary _ he' | comparison _ _ he' | conditional _ _ _ he'
  | member _ he' | subscript _ _ he' | call _ _ he' =>
    rw [he] at he'
    cases he'

theorem takes_extend_boolean {op : BoolOp} {values : List Tree} {t : Tree}
    (hleft : ChainSoFar op values left) (hx : Takes (sub p) (f :: fs) gs t.Is) :
    Takes (extend sub left p) (spelled op.word :: f :: fs) gs (ChainSoFar op (values ++ [t])) := by
  rw [spelled_boolean]
  refine .of_run (y := boolean sub left p) (fun _ _ _ _ _ => by cases op <;> rfl) ?_
  refine Takes.advance.bind fun token ht => ?_
  have hkind : token.kind = kindOfBoolean op := congrArg Prod.fst ht
  have hop : (if token.kind == .kwAnd then BoolOp.and else .or) = op := by
    rw [hkind]
    cases op <;> rfl
  simp only [hop]
  refine hx.bind fun r hr => (Takes.exprAcross left r _).imp fun e he => .inr ?_
  obtain ⟨u, rfl, hu, hflat⟩ | ⟨hlength, hchain⟩ := hleft
  · refine ⟨Nat.le_refl _, .boolean (.cons hu (.cons hr .nil)) (he.trans ?_)⟩
    split
    · rename_i found es hform
      have hne : found ≠ op := by
        rintro rfl
        exact not_chain_of_is hu hflat hform
      rw [if_neg hne]
    · rfl
  · cases hchain with
    | boolean hes hform =>
      rw [hform] at he
      simp only [if_true] at he
      refine ⟨?_, .boolean (List.rel_append hes (.cons hr .nil)) he⟩
      rw [List.length_append]
      omega

def nextComparison (sub : Sub) : Parser (Option (CompareOp × Expr)) := do
  match ← compareOp? with
  | none => return none
  | some op => return some (op, ← sub .relational)

def kindsOfCompare : CompareOp → List Kind
  | .eq => [.equals]
  | .notEq => [.notEquals]
  | .less => [.less]
  | .lessEq => [.lessEquals]
  | .greater => [.greater]
  | .greaterEq => [.greaterEquals]
  | .is => [.kwIs]
  | .isNot => [.kwIs, .kwNot]
  | .isIn => [.kwIn]
  | .notIn => [.kwNot, .kwIn]

theorem spelled_words (op : CompareOp) :
    op.words.map spelled = (kindsOfCompare op).zip op.words := by
  have hall : ∀ f ∈ (kindsOfCompare op).zip op.words, f ∈ fixedFaces := by
    cases op <;> simp [fixedFaces, kindsOfCompare, CompareOp.words]
  have hwords : op.words = ((kindsOfCompare op).zip op.words).map Prod.snd := by
    cases op <;> rfl
  conv_lhs => rw [hwords, List.map_map]
  exact (List.map_congr_left fun f hf => spelled_of_mem (hall f hf)).trans (List.map_id _)

theorem takes_compareOp_of_run {k : Kind} {word : String} {op : CompareOp}
    (h : ∀ span (t : Token) ts passed id, t.kind ≠ .kwNot →
      compareOp?.run ⟨⟨k, word, span⟩, t :: ts, passed, id⟩ =
        .ok (some op, ⟨t, ts, some span.stop, id⟩)) (hf : f.1 ≠ .kwNot) :
    Takes compareOp? ((k, word) :: f :: fs) (f :: fs) (· = some op) := by
  rintro ⟨⟨kind, value, span⟩, later, passed, id⟩ hc
  cases later with
  | nil => cases hc
  | cons t ts =>
    cases hc
    exact ⟨_, _, h span t ts passed id hf, rfl, rfl⟩

theorem takes_compareOp_of_run_two {k j : Kind} {word next : String} {op : CompareOp}
    (h : ∀ span span' (t : Token) ts passed id,
      compareOp?.run ⟨⟨k, word, span⟩, ⟨j, next, span'⟩ :: t :: ts, passed, id⟩ =
        .ok (some op, ⟨t, ts, some span'.stop, id⟩)) :
    Takes compareOp? ((k, word) :: (j, next) :: f :: fs) (f :: fs) (· = some op) := by
  rintro ⟨⟨kind, value, span⟩, later, passed, id⟩ hc
  match later, hc with
  | [⟨kind', value', span'⟩], hc => cases hc
  | ⟨kind', value', span'⟩ :: t :: ts, hc =>
    cases hc
    exact ⟨_, _, h span span' t ts passed id, rfl, rfl⟩

theorem takes_compareOp? (op : CompareOp) (hf : f.1 ≠ .kwNot) :
    Takes compareOp? (op.words.map spelled ++ f :: fs) (f :: fs) (· = some op) := by
  rw [spelled_words]
  cases op
  case isNot | notIn => exact takes_compareOp_of_run_two fun _ _ _ _ _ _ => rfl
  case is =>
    refine takes_compareOp_of_run (fun span t ts passed id ht => ?_) hf
    change StateT.run (if (t.kind == Kind.kwNot) = true then _ else _) _ = _
    rw [beq_eq_false_iff_ne.2 ht]
    rfl
  all_goals exact takes_compareOp_of_run (fun _ _ _ _ _ _ => rfl) hf

theorem takes_no_compareOp? (hf : rank f ≤ 5) :
    Takes compareOp? (f :: fs) (f :: fs) (· = none) := by
  rintro ⟨⟨kind, value, span⟩, later, passed, id⟩ hc
  obtain rfl : kind = f.1 := congrArg Prod.fst (List.cons.inj hc).1
  have hrank : (Power.ofKind f.1).rank ≤ 5 := hf
  refine ⟨none, _, ?_, hc, rfl⟩
  generalize f.1 = k at hrank
  cases k <;> first | rfl | exact absurd hrank (by decide)

end Constructs

def startsSpelling : Kind → Bool
  | .identifier | .openParen | .dash | .plus | .tilde | .kwNot => true
  | _ => false

theorem exists_first_of_spells {k : Nat} {t : Tree} {us : List String} (h : Spells k t us) :
    ∃ w vs, us = w :: vs ∧ startsSpelling (spelled w).1 = true ∧
      ((spelled w).1 = .kwNot → k ≤ Rung.not.height) := by
  refine Spells.strong (P := fun k _ us => ∃ w vs, us = w :: vs ∧
    startsSpelling (spelled w).1 = true ∧ ((spelled w).1 = .kwNot → k ≤ Rung.not.height))
    (fun {k t us} h ih => ?_) h
  have hleft {j : Nat} {s : Tree} {vs ws : List String} (hs : Spells j s vs) (hk : k ≤ j) 
      (hlen : 0 < ws.length) (hws : us = vs ++ ws) : ∃ w vs, us = w :: vs ∧
      startsSpelling (spelled w).1 = true ∧ ((spelled w).1 = .kwNot → k ≤ Rung.not.height) := by
    obtain ⟨w, vs', rfl, hstart, hnot⟩ := ih (by rw [hws, List.length_append]; omega) hs
    exact ⟨w, vs' ++ ws, hws, hstart, fun hw => Nat.le_trans hk (hnot hw)⟩
  cases h with
  | parens h => exact ⟨"(", _, rfl, by rw [spelled_openParen]; rfl, by rw [spelled_openParen]; nofun⟩
  | name h => exact ⟨_, _, rfl, by rw [spelled_name h]; rfl, by rw [spelled_name h]; nofun⟩
  | binary hop hk hl hr => exact hleft hl hk (by simp) rfl
  | power hk hl hr => exact hleft hl (Nat.le_succ_of_le hk) (by simp) rfl
  | @unary k t op us hk h =>
    refine ⟨_, _, rfl, by rw [spelled_unary]; cases op <;> rfl, ?_⟩
    rw [spelled_unary]
    cases op
    case not => exact fun _ => hk
    all_goals nofun
  | boolean hk hflat h hne hts =>
    exact hleft h (Nat.le_succ_of_le hk) 
      (Nat.lt_of_lt_of_le (List.length_pos_iff.2 hne) (hts.length_le fun _ => isLead_boolean _)) rfl
  | comparison hk h hne hrest =>
    exact hleft h (Nat.le_succ_of_le hk) 
      (Nat.lt_of_lt_of_le (List.length_pos_iff.2 hne) (hrest.length_le fun r => isLead_words r.1)) rfl
  | conditional hk hbody htest horelse => exact hleft hbody (Nat.le_succ_of_le hk) (by simp) rfl
  | member hk h hattr => exact hleft h hk (by simp) rfl
  | subscript hk h hindex => exact hleft h hk (by simp) rfl
  | callNone hk h => exact hleft h hk (by simp) rfl
  | call hk h harg hargs => exact hleft h hk (by simp) rfl

theorem exists_first_of_introduced {p : Nat → Tree → List String → Prop} {P : Face → Prop}
    {rest : List (List String × Tree)} {vs : List String} {k : Nat} (h : Introduced p rest vs k)
    {f : Face} (gs : List Face) (hf : P f)
    (hlead : ∀ r ∈ rest, ∃ w us, r.1 = w :: us ∧ P (spelled w)) :
    ∃ g hs, vs.map spelled ++ f :: gs = g :: hs ∧ P g ∧ hs.length = vs.length + gs.length := by
  cases h with
  | nil => exact ⟨f, gs, rfl, hf, (Nat.zero_add _).symm⟩
  | cons ht hrest =>
    obtain ⟨w, us, hw, hg⟩ := hlead _ List.mem_cons_self
    obtain rfl := hw
    exact ⟨spelled w, _, rfl, hg, by simp +arith⟩

/-- A spelling that a reader reads. -/
def Readable (k : Nat) (t : Tree) (us : List String) : Prop :=
  Spells k t us ∧ Fits k t us

theorem rank_words (op : CompareOp) : ∃ w us, op.words = w :: us ∧ rank (spelled w) = 6 := by
  have hall : ∀ f ∈ op.words.map spelled, rank f = 6 := by
    rw [spelled_words]
    cases op <;> decide
  cases op <;> exact ⟨_, _, rfl, hall _ (List.mem_cons_self ..)⟩

theorem rank_words_le (op : CompareOp) :
    ∃ w us, op.words = w :: us ∧ rank (spelled w) ≤ Rung.comparison.height + 1 := by
  obtain ⟨w, us, hw, hrank⟩ := rank_words op
  exact ⟨w, us, hw, Nat.le_of_eq hrank⟩

theorem takes_comparisons {n m : Nat} {f : Face} {gs : List Face} (hf : rank f ≤ 5)
    {rest : List (CompareOp × Tree)} {vs : List String}
    (h : Introduced Readable (rest.map fun r => (r.1.words, r.2)) vs (Rung.comparison.height + 1))
    (hm : rest.length < m) (hn : vs.length + gs.length ≤ n) :
    Takes (collectUpTo (nextComparison (expression n)) m) (vs.map spelled ++ f :: gs) (f :: gs)
      (List.Forall₂ (Compared Tree.Is) rest) := by
  induction rest generalizing vs m with
  | nil =>
    cases h
    cases m with
    | zero => exact absurd hm (Nat.not_lt_zero _)
    | succ m =>
      have hnone : Takes (nextComparison (expression n)) (f :: gs) (f :: gs) (· = none) :=
        (takes_no_compareOp? hf).bind fun o ho => by
          rw [ho]
          exact .pure rfl
      refine hnone.bind fun o ho => ?_
      rw [ho]
      exact .pure .nil
  | cons r rest ih =>
    obtain ⟨op, t⟩ := r
    cases m with
    | zero => exact absurd hm (Nat.not_lt_zero _)
    | succ m =>
      cases h with
      | @cons _ _ us ws _ _ ht hrest =>
        obtain ⟨hspells, hfits⟩ := ht
        obtain ⟨w, us', rfl, _, hnot⟩ := exists_first_of_spells hspells
        obtain ⟨g, hs, hfirst, hg, hlength⟩ := exists_first_of_introduced (P := fun f => rank f ≤ 6)
          hrest gs (Nat.le_succ_of_le hf) (List.forall_mem_map.2 fun r _ => rank_words_le r.1)
        have hop := List.length_pos_iff.2 (isLead_words op).1
        simp only [List.length_append, List.length_cons] at hn hm
        have hread := hfits .relational n g hs (admits_of_le (Nat.le_refl _)) hg
          (by rw [List.length_cons]; omega)
        have hone : Takes (nextComparison (expression n))
            (op.words.map spelled ++ ((w :: us').map spelled ++ g :: hs)) (g :: hs)
            fun o => ∃ e, t.Is e ∧ o = some (op, e) :=
          (takes_compareOp? op fun h => absurd (hnot h) (by decide)).bind fun o ho => by
            rw [ho]
            exact hread.bind fun e he => .pure ⟨e, he, rfl⟩
        rw [List.map_append, List.map_append, List.append_assoc, List.append_assoc, hfirst]
        refine hone.bind fun o ho => ?_
        obtain ⟨e, he, rfl⟩ := ho
        have hmore := ih hrest (by omega) (m := m) (by omega)
        rw [hfirst] at hmore
        exact hmore.bind fun es hes => .pure (.cons ⟨op, he⟩ hes)

theorem takes_extend_words {sub : Sub} {left : Expr} {p : Power} {fs gs : List Face} {P : Expr → Prop}
    (op : CompareOp) (h : Takes (comparison sub left) (op.words.map spelled ++ fs) gs P) :
    Takes (extend sub left p) (op.words.map spelled ++ fs) gs P := by
  rw [spelled_words] at h ⊢
  cases op <;> exact .of_run (y := comparison sub left) (fun _ _ _ _ _ => rfl) h

theorem takes_extend_comparison {n : Nat} {f : Face} {gs : List Face} {left : Expr} {p : Power}
    {t : Tree} (hleft : t.Is left) (hf : rank f ≤ 5) {rest : List (CompareOp × Tree)}
    {vs : List String}
    (h : Introduced Readable (rest.map fun r => (r.1.words, r.2)) vs (Rung.comparison.height + 1))
    (hne : rest ≠ []) (hn : vs.length + gs.length ≤ n) :
    Takes (extend (expression n) left p) (vs.map spelled ++ f :: gs) (f :: gs)
      (Tree.comparison t rest).Is := by
  have hcollect : Takes (collect (nextComparison (expression n))) (vs.map spelled ++ f :: gs) (f :: gs)
      (List.Forall₂ (Compared Tree.Is) rest) := by
    refine .collect fun m hm => takes_comparisons hf h ?_ hn
    have hle := h.length_le fun r => isLead_words r.1
    simp only [List.length_append, List.length_map, List.length_cons] at hm
    omega
  have hcompare : Takes (comparison (expression n) left) (vs.map spelled ++ f :: gs) (f :: gs)
      (Tree.comparison t rest).Is := by
    refine hcollect.bind fun es hes => ?_
    have hes' : es.isEmpty = false := by
      cases hes with
      | nil => exact absurd rfl hne
      | cons => rfl
    rw [hes', if_neg Bool.false_ne_true]
    exact (Takes.exprFrom _ _).imp fun e he => .comparison hleft hes he
  obtain ⟨r, rest, rfl⟩ := List.exists_cons_of_ne_nil hne
  cases h with
  | cons ht hrest =>
    rw [List.map_append, List.append_assoc] at hcompare ⊢
    exact takes_extend_words r.1 hcompare

theorem ne_assignment_of_isWord {w : String} (h : IsWord w) : (spelled w).1 ≠ .assignment := by
  have hfixed : ∀ f ∈ fixedFaces, f.1 ≠ .assignment := by decide
  obtain hname | hmem := h
  · rw [spelled_name hname]
    nofun
  · exact hfixed _ (map_spelled_fixedWords ▸ List.mem_map_of_mem hmem)

def EndsArgument (f : Face) : Prop :=
  f.1 = .comma ∨ f.1 = .closeParen

theorem takes_argument {n : Nat} {t : Tree} {us : List String} {f : Face} {gs : List Face}
    (h : Readable 0 t us) (hf : EndsArgument f) (hn : us.length + gs.length < n) :
    Takes (argument (expression n)) (us.map spelled ++ f :: gs) (f :: gs)
      fun a => ∃ e, t.Is e ∧ a = .inl e := by
  obtain ⟨hspells, hfits⟩ := h
  have hread := hfits .lowest n f gs (admits_of_le (Nat.le_refl _))
    (by obtain hf | hf := hf <;> (unfold rank; rw [hf]; exact Nat.le_refl _)) hn
  have hwords := hspells.isWord
  obtain ⟨w, vs, rfl, hstart, _⟩ := exists_first_of_spells hspells
  have hnext : ∃ g hs, vs.map spelled ++ f :: gs = g :: hs ∧ g.1 ≠ .assignment := by
    cases vs with
    | nil => exact ⟨f, gs, rfl, by obtain hf | hf := hf <;> (rw [hf]; nofun)⟩
    | cons v vs => exact ⟨spelled v, _, rfl, ne_assignment_of_isWord (hwords v (by simp))⟩
  obtain ⟨g, hs, htail, hg⟩ := hnext
  rw [List.map_cons, List.cons_append, htail] at hread ⊢
  refine (Takes.eat_other fun hw => by rw [hw] at hstart; cases hstart).bind fun b hb => ?_
  rw [hb, if_neg Bool.false_ne_true]
  refine Takes.get.bind fun c hc => ?_
  have hplain : (c.kind == .identifier && c.nextKind == .assignment) = false := by
    rw [Cursor.nextKind_of_faces hc, beq_eq_false_iff_ne.2 hg, Bool.and_false]
  rw [hplain, if_neg Bool.false_ne_true]
  refine Takes.start.bind fun _ _ => hread.bind fun e he => ?_
  refine (takes_startsClause ?_ ?_).bind fun b hb => ?_
  · obtain hf | hf := hf <;> (rw [hf]; nofun)
  · obtain hf | hf := hf <;> (rw [hf]; nofun)
  · rw [hb, if_neg Bool.false_ne_true]
    exact .pure ⟨e, he, rfl⟩

theorem takes_commaListUpTo {n m : Nat} {t : Tree} {us : List String} {f : Face} {gs hs : List Face}
    {Q : List (Expr ⊕ Keyword Expr) → Prop} (h : Readable 0 t us) (hf : EndsArgument f)
    (hn : us.length + gs.length < n)
    (hrest : ∀ e, t.Is e → Takes (do
      if ← eat .comma then
        return .inl e :: (← commaListUpTo (at? .closeParen) (argument (expression n)) m)
      return [.inl e]) (f :: gs) hs Q) :
    Takes (commaListUpTo (at? .closeParen) (argument (expression n)) (m + 1))
      (us.map spelled ++ f :: gs) hs Q := by
  have hone := takes_argument h hf hn
  obtain ⟨w, vs, rfl, hstart, _⟩ := exists_first_of_spells h.1
  refine (Takes.at? .closeParen).bind fun b hb => ?_
  have hopen : ((spelled w).1 == .closeParen) = false := beq_eq_false_iff_ne.2 fun hw => by
    rw [hw] at hstart
    cases hstart
  rw [hb, hopen, if_neg Bool.false_ne_true]
  refine hone.bind fun a ha => ?_
  obtain ⟨e, he, rfl⟩ := ha
  exact hrest e he

theorem takes_arguments {n m : Nat} {t : Tree} {args : List Tree} {us vs : List String}
    {gs : List Face} (h : Readable 0 t us)
    (hargs : Introduced Readable (args.map ([","], ·)) vs 0) (hm : args.length < m)
    (hn : us.length + vs.length + gs.length < n) :
    Takes (commaListUpTo (at? .closeParen) (argument (expression n)) m)
      (us.map spelled ++ (vs.map spelled ++ spelled ")" :: gs)) (spelled ")" :: gs)
      fun as => ∃ es, as = es.map .inl ∧ List.Forall₂ Tree.Is (t :: args) es := by
  have hclose : EndsArgument (spelled ")") := .inr (by rw [spelled_closeParen])
  induction args generalizing t us vs m with
  | nil =>
    cases hargs
    cases m with
    | zero => exact absurd hm (Nat.not_lt_zero _)
    | succ m =>
      refine takes_commaListUpTo h hclose (by simpa using hn) fun e he => ?_
      refine (Takes.eat_other (by rw [spelled_closeParen]; nofun)).bind fun b hb => ?_
      rw [hb, if_neg Bool.false_ne_true]
      exact .pure ⟨[e], rfl, .cons he .nil⟩
  | cons u args ih =>
    cases hargs with
    | @cons _ _ ws vs' _ _ hu hrest =>
      cases m with
      | zero => exact absurd hm (Nat.not_lt_zero _)
      | succ m =>
        simp only [List.length_append, List.length_cons, List.length_nil] at hn hm
        have hmore := ih (m := m) hu hrest (by omega) (by omega)
        have hcomma : EndsArgument (spelled ",") := .inl (by rw [spelled_comma])
        obtain ⟨w, ws', rfl, _⟩ := exists_first_of_spells hu.1
        have hlist : ([","] ++ (w :: ws' ++ vs')).map spelled ++ spelled ")" :: gs =
            spelled "," :: ((w :: ws').map spelled ++ (vs'.map spelled ++ spelled ")" :: gs)) := by
          simp
        rw [hlist]
        refine takes_commaListUpTo h hcomma (by simp; simp at hn; omega) fun e he => ?_
        refine (Takes.eat (by rw [spelled_comma])).bind fun b hb => ?_
        rw [hb, if_pos rfl]
        refine hmore.bind fun as has => .pure ?_
        obtain ⟨es, rfl, hes⟩ := has
        exact ⟨e :: es, rfl, .cons he hes⟩

theorem takes_call {n : Nat} {left : Expr} {t : Tree} {args : List Tree} {p : Power} {f : Face}
    {fs gs : List Face} (hleft : t.Is left)
    (h : ∀ m, fs.length < m →
      Takes (commaListUpTo (at? .closeParen) (argument (expression n)) m) fs (spelled ")" :: f :: gs)
        fun as => ∃ es, as = es.map .inl ∧ List.Forall₂ Tree.Is args es)
    (hfs : fs ≠ []) :
    Takes (extend (expression n) left p) (spelled "(" :: fs) (f :: gs) (Tree.call t args).Is := by
  have harguments : Takes (arguments (expression n)) fs (f :: gs) fun a =>
      List.Forall₂ Tree.Is args a.1 ∧ a.2 = [] := by
    refine (Takes.commaList h).bind fun as has => ?_
    obtain ⟨es, rfl, hes⟩ := has
    refine (Takes.expect (by rw [spelled_closeParen])).bind fun _ _ => .pure ⟨?_, ?_⟩
    · have hall : (es.map (Sum.inl : Expr → Expr ⊕ Keyword Expr)).filterMap Sum.getLeft? = es := by
        rw [List.filterMap_map]
        exact List.filterMap_some
      rw [hall]
      exact hes
    · change (es.map Sum.inl).filterMap Sum.getRight? = []
      rw [List.filterMap_map]
      exact List.filterMap_eq_nil_iff.2 fun _ _ => rfl
  obtain ⟨g, fs, rfl⟩ := List.exists_cons_of_ne_nil hfs
  rw [spelled_openParen]
  refine .of_run (y := call (expression n) left) (fun _ _ _ _ _ => rfl) ?_
  refine Takes.advance.bind fun _ _ => harguments.bind fun a ha => ?_
  obtain ⟨as, keywords⟩ := a
  obtain ⟨has, rfl⟩ := ha
  exact (Takes.exprFrom _ _).imp fun e he => .call hleft has he

theorem takes_no_arguments {n m : Nat} {gs : List Face} (hm : 0 < m) :
    Takes (commaListUpTo (at? .closeParen) (argument (expression n)) m) (spelled ")" :: gs)
      (spelled ")" :: gs) fun as => ∃ es, as = es.map .inl ∧ List.Forall₂ Tree.Is [] es := by
  cases m with
  | zero => exact absurd hm (Nat.not_lt_zero _)
  | succ m =>
    refine (Takes.at? .closeParen).bind fun b hb => ?_
    rw [hb, spelled_closeParen, if_pos (beq_self_eq_true _)]
    exact .pure ⟨[], rfl, .nil⟩

end Grammar

end Credence

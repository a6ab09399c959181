import Credence.Proofs.ReadingStmt
import Credence.Proofs.Scanning

namespace Credence

namespace Token

/-- What the tokens of a list pay for. -/
def credits (tokens : List Token) : Nat :=
  (tokens.map credit).sum

theorem credit_le_one {t : Token} (h : Grammar.isStringKind t.kind = false) : t.credit ≤ 1 := by
  unfold credit
  split
  any_goals omega
  all_goals
    rename_i hk
    rw [hk] at h
    cases h

theorem isStringKind_ofWord (word : String) : Grammar.isStringKind (Kind.ofWord word) = false := by
  unfold Kind.ofWord
  split <;> rfl

theorem isStringKind_mark {cs : List Char} {kind : Kind} {n : Nat}
    (h : Lexeme.mark? cs = some (.mark kind, n)) : Grammar.isStringKind kind = false := by
  have hmarks : ∀ m ∈ Kind.marks, Grammar.isStringKind m.2 = false := by decide
  obtain ⟨m, hfind, hm⟩ := Option.map_eq_some_iff.1 h
  cases hm
  exact hmarks m (List.mem_of_find?_eq_some hfind)

namespace Literal

theorem length_escape_le {cs text : List Char} {taken : Nat} (h : escape? cs = some (text, taken)) :
    taken ≤ cs.length ∧ text.length ≤ taken + 1 := by
  cases cs with
  | nil => cases h
  | cons c cs =>
    unfold escape? at h
    simp only at h
    split at h
    case h_13 =>
      split at h
      · cases h
        simp
      · rename_i digits _
        have hdigits : ((cs.take 2).takeWhile escape?.isHex).length ≤ cs.length :=
          Nat.le_trans (List.takeWhile_sublist _).length_le (List.take_sublist 2 cs).length_le
        cases h
        simp
        omega
    case h_14 => cases h
    all_goals
      cases h
      simp

theorem length_unescape_le (cs : List Char) : (unescape cs).length ≤ cs.length := by
  induction cs using unescape.induct with
  | case1 => simp [unescape]
  | case2 cs text taken hescape ih =>
    obtain ⟨htaken, htext⟩ := length_escape_le hescape
    rw [unescape, if_pos rfl, hescape]
    simp only [List.length_append, List.length_drop, List.length_cons] at ih ⊢
    omega
  | case3 cs hescape ih =>
    rw [unescape, if_pos rfl, hescape]
    simpa using ih
  | case4 c cs hc ih =>
    rw [unescape, if_neg hc]
    simpa using ih

end Literal

namespace Scan

variable {file : String} {s t : Scan}

/-- What the tokens so far pay for. -/
def cost (s : Scan) : Nat :=
  credits s.tokens

theorem cost_push_of_le {kind : Kind} {value : String} {length n : Nat}
    (h : ∀ span, Token.credit ⟨kind, value, span⟩ ≤ n) :
    (s.push file kind value length).cost ≤ s.cost + n := by
  have hcost : (s.push file kind value length).cost =
      Token.credit ⟨kind, value, ⟨s.place.position file, (s.place.position file).shift length⟩⟩ +
        s.cost := rfl
  rw [hcost, Nat.add_comm]
  exact Nat.add_le_add_left (h _) _

theorem cost_endLine (s : Scan) (length : Nat) : (s.endLine file length).cost = s.cost := by
  unfold endLine
  split
  · rfl
  · exact Nat.zero_add s.cost

theorem cost_dedent (s : Scan) (n : Nat) : (s.dedent file n).cost = s.cost := by
  induction n generalizing s with
  | zero => rfl
  | succ n ih => exact (ih _).trans (Nat.zero_add s.cost)

theorem cost_indentTo {w : Nat} (h : s.indentTo file w = .ok t) : t.cost = s.cost := by
  unfold indentTo at h
  split at h
  · cases h
    exact Nat.zero_add s.cost
  · simp only at h
    split at h
    · cases h
      exact cost_dedent s _
    · cases h

theorem length_literal_lt {tag : Nat} {triple : Bool} {text : List Char} (h : text ≠ []) :
    (literal tag triple text).2.length + 1 ≤ text.length := by
  have hpos := List.length_pos_iff.2 h
  have hquotes : 1 ≤ if triple then 3 else 1 := by split <;> decide
  unfold literal
  simp only [String.length_ofList]
  generalize (if triple then 3 else 1) = quotes at *
  have hcontent : ((text.drop (tag + quotes)).take (text.length - tag - 2 * quotes)).length + 1 ≤
      text.length := by
    have := List.length_take_le (text.length - tag - 2 * quotes) (text.drop (tag + quotes))
    omega
  split
  · exact hcontent
  · exact Nat.le_trans (Nat.succ_le_succ (Literal.length_unescape_le _)) hcontent

theorem cost_takeLexeme {cs text : List Char} {lexeme : Lexeme} {n : Nat}
    (hlexeme : Lexeme.ofText? cs = some (lexeme, n)) (htext : text ≠ [])
    (h : s.takeLexeme file lexeme text = .ok t) : t.cost ≤ s.cost + text.length := by
  have hpos : 1 ≤ text.length := List.length_pos_iff.2 htext
  have hplain {kind : Kind} {value : String} {length : Nat} (hkind : Grammar.isStringKind kind = false) :
      (s.push file kind value length).cost ≤ s.cost + text.length :=
    Nat.le_trans (cost_push_of_le fun span => credit_le_one hkind) (Nat.add_le_add_left hpos _)
  unfold takeLexeme at h
  cases lexeme with
  | literal tag triple =>
    cases h
    refine cost_push_of_le fun span => ?_
    have hlength : (literal tag triple text).2.length + 1 ≤ text.length := length_literal_lt htext
    unfold Token.credit
    split
    any_goals exact hlength
    all_goals omega
  | openLiteral => cases h
  | word =>
    cases h
    exact hplain (isStringKind_ofWord _)
  | numeral =>
    cases h
    exact hplain rfl
  | lineEnd =>
    simp only at h
    split at h
    · cases h
      exact Nat.le_trans (Nat.le_of_eq (s.cost_endLine (Text.byteLength text))) (Nat.le_add_right _ _)
    · cases h
      exact Nat.le_add_right _ _
  | trivia =>
    cases h
    exact Nat.le_add_right _ _
  | mark kind =>
    cases h
    exact hplain (isStringKind_mark (Lexeme.rule?_of_ofText? hlexeme))

theorem cost_run {cs : List Char} (h : run file s cs = .ok t) : t.cost ≤ s.cost + cs.length := by
  refine run_keeps (P := fun u rest => u.cost + rest.length ≤ s.cost + cs.length)
    (fun u text rest _ hu => ?_) (fun u v text rest w _ hu hindent => ?_)
    (fun u v text rest lexeme n _ htext hu hlexeme htake => ?_) (Nat.le_refl _) h
  · have hcost : (u.advance text).cost = u.cost := rfl
    rw [List.length_append] at hu
    omega
  · have hcost : v.cost = u.cost := cost_indentTo (s := u.advance text) hindent
    have hfresh : Scan.cost { v with fresh := false } = v.cost := rfl
    rw [List.length_append] at hu
    omega
  · have hcost := cost_takeLexeme hlexeme htext htake
    rw [List.length_append] at hu
    omega

end Scan

theorem credits_tokenize_le {source file : String} {tokens : List Token}
    (h : tokenize source file = .ok tokens) : credits tokens ≤ source.length := by
  unfold tokenize at h
  cases hrun : Scan.run file {} source.toList with
  | error fault =>
    rw [hrun] at h
    cases h
  | ok s =>
    rw [hrun] at h
    cases h
    have hcost := Scan.cost_run hrun
    have hfinish : credits (s.finish file) = s.cost := by
      unfold credits Scan.finish
      rw [List.map_reverse, List.sum_reverse]
      exact (Nat.zero_add _).trans ((Scan.cost_dedent _ _).trans (s.cost_endLine 0))
    rw [hfinish]
    rw [String.length_toList] at hcost
    exact Nat.le_trans hcost (Nat.le_of_eq (Nat.zero_add _))

end Token

theorem foldl_weights {α : Type} (f : α → Nat) (xs : List α) (start : Nat) :
    xs.foldl (fun total x => total + f x) start = start + (xs.map f).sum := by
  induction xs generalizing start with
  | nil => rfl
  | cons x xs ih =>
    rw [List.foldl_cons, ih, List.map_cons, List.sum_cons]
    omega

theorem Expr.weight_eq (e : Expr) : e.weight = e.form.own + (e.children.map weight).sum := by
  rw [weight, ← foldl_weights weight]
  exact List.foldl_attach (f := fun total c => total + weight c)

theorem bodyWeight_cons (s : Stmt) (rest : List Stmt) :
    bodyWeight (s :: rest) =
      1 + ((s.expressions ++ s.keywordValues).map Expr.weight).sum +
        (s.blocks.map bodyWeight).sum + bodyWeight s.definitionBody + bodyWeight rest := by
  rw [bodyWeight, ← foldl_weights Expr.weight, ← foldl_weights bodyWeight]
  exact congrArg (· + bodyWeight s.definitionBody + bodyWeight rest)
    (List.foldl_attach (f := fun total b => total + bodyWeight b))

theorem Expr.weight_lt_of_mem_children {e k : Expr} (h : k ∈ e.children) : k.weight < e.weight := by
  have hle := List.single_le_sum (fun _ _ => Nat.zero_le _) _ (List.mem_map_of_mem (f := weight) h)
  have hpos := e.form.own_pos
  rw [weight_eq e]
  omega

/-- What a tree costs: an expression its weight, a statement the weights of its expressions. -/
def Node.cost : Node → Nat
  | .expr e => e.weight
  | .stmt s => (s.form.expressions.map Expr.weight).sum

theorem sum_map_le_of_subperm {α : Type} {xs ys : List α} (f : α → Nat) (h : xs.Subperm ys) :
    (xs.map f).sum ≤ (ys.map f).sum := by
  obtain ⟨zs, hperm, hsub⟩ := h
  rw [← (hperm.map f).sum_nat]
  exact (hsub.map f).sum_le_sum fun _ _ => Nat.zero_le _

namespace Grammar

def Cursor.cost (c : Cursor) : Nat :=
  Token.credits (c.current :: c.later)

theorem Cursor.cost_next {c : Cursor} (h : c.later ≠ []) :
    c.next.cost + c.current.credit = c.cost := by
  unfold Cursor.next Cursor.cost
  cases hl : c.later with
  | nil => exact absurd hl h
  | cons t ts => exact Nat.add_comm _ _

theorem Cursor.cost_ofTokens (tokens : List Token) (file : String) :
    (Cursor.ofTokens tokens file).cost = Token.credits tokens := by
  cases tokens with
  | nil => rfl
  | cons t ts =>
    unfold Cursor.ofTokens
    rw [List.getLast?_eq_some_getLast (List.cons_ne_nil t ts)]
    simp only
    split
    · rfl
    · unfold Cursor.cost Token.credits
      rw [← List.cons_append, List.map_append, List.sum_append]
      exact Nat.add_zero _

/-- Between two places trees were read that cost no more than the tokens which were passed for them
pay, with a number of tokens not spent. -/
def Cursor.Pays (c d : Cursor) (k : Nat) (ns : List Node) : Prop :=
  d.cost + k + (ns.map Node.cost).sum ≤ c.cost

namespace Cursor.Pays

variable {c d e : Cursor} {k l : Nat} {ns ms : List Node}

theorem refl (c : Cursor) : c.Pays c 0 [] :=
  Nat.le_refl _

theorem pass (h : c.Pays d k ns) (hne : d.later ≠ []) :
    c.Pays d.next (k + d.current.credit) ns := by
  have hnext := cost_next hne
  unfold Pays at h ⊢
  omega

theorem trans (h : c.Pays d k ns) (h' : d.Pays e l ms) : c.Pays e (k + l) (ns ++ ms) := by
  unfold Pays at h h' ⊢
  rw [List.map_append, List.sum_append]
  omega

theorem spend (h : c.Pays d k ns) (hl : l ≤ k) (hms : ms.Sublist ns) : c.Pays d l ms := by
  have hle := sum_map_le_of_subperm Node.cost hms.subperm
  unfold Pays at h ⊢
  omega

theorem unwrap (h : c.Pays d k ns) (hms : Unwraps ns ms) : c.Pays d k ms := by
  cases hms with
  | kept => exact h
  | unwrapped e ns =>
    unfold Pays at h ⊢
    rw [List.map_cons, List.sum_cons, Node.cost, Expr.weight_eq] at h
    have hmap : (e.children.map Node.expr).map Node.cost = e.children.map Expr.weight :=
      List.map_map
    rw [List.map_append, List.sum_append, hmap]
    omega

theorem expr {form : ExprForm Expr} {span : Span} (h : c.Pays d (k + form.own) ns)
    (hms : Unwraps ns ms) (hparts : (form.parts.map Node.expr).Subperm ms) :
    c.Pays { d with nextId := d.nextId + 1 } k [.expr ⟨d.nextId, form, span⟩] := by
  have h := h.unwrap hms
  have hchildren := (form.children_sublist_parts.map Node.expr).subperm.trans hparts
  have hle := sum_map_le_of_subperm Node.cost hchildren
  have hmap : (form.children.map Node.expr).map Node.cost = form.children.map Expr.weight :=
    List.map_map
  have hweight : Expr.weight ⟨d.nextId, form, span⟩ =
      form.own + (form.children.map Expr.weight).sum := Expr.weight_eq _
  have hcost : cost { d with nextId := d.nextId + 1 } = d.cost := rfl
  unfold Pays at h ⊢
  rw [hmap] at hle
  rw [hcost, List.map_singleton, List.sum_singleton, Node.cost, hweight]
  omega

theorem stmt {form : StmtForm Stmt} (span : Span) (h : c.Pays d k ns)
    (hms : Unwraps ns ms) (hparts : form.parts.Subperm ms) :
    c.Pays { d with nextId := d.nextId + 1 } k [.stmt ⟨d.nextId, form, span⟩] := by
  have h := h.unwrap hms
  have hle := sum_map_le_of_subperm Node.cost hparts
  have hmap : (form.expressions.map Node.expr).map Node.cost =
      form.expressions.map Expr.weight := List.map_map
  have hcost : cost { d with nextId := d.nextId + 1 } = d.cost := rfl
  simp only [StmtForm.parts, List.map_append, List.sum_append, hmap] at hle
  unfold Pays at h ⊢
  rw [hcost, List.map_singleton, List.sum_singleton]
  change d.cost + k + (form.expressions.map Expr.weight).sum ≤ c.cost
  omega

end Cursor.Pays

def Reading.weights : Reading where
  inv _ := True
  reads := Cursor.Pays
  fault _ := True
  inv_of_reads _ := trivial
  refl _ := Cursor.Pays.refl _
  pass := Cursor.Pays.pass
  trans := Cursor.Pays.trans
  spend := Cursor.Pays.spend
  expr h hms hparts _ := h.expr hms hparts
  stmt := Cursor.Pays.stmt
  fail _ _ := trivial

end Grammar

theorem exists_parse_of_ofSource {text file : String} {m : Module}
    (h : Module.ofSource text file = .ok m) :
    ∃ tokens, Token.tokenize text file = .ok tokens ∧ Grammar.parse tokens file = .ok m := by
  unfold Module.ofSource at h
  cases htokens : Token.tokenize text file with
  | error fault =>
    rw [htokens] at h
    cases h
  | ok tokens =>
    rw [htokens] at h
    exact ⟨tokens, rfl, h⟩

theorem credits_le_of_ofSource {text file : String} {m : Module}
    (h : Module.ofSource text file = .ok m) :
    (m.body.map fun s => (s.form.expressions.map Expr.weight).sum).sum ≤ text.length := by
  obtain ⟨tokens, htokens, hm⟩ := exists_parse_of_ofSource h
  have hparse := Grammar.Reading.weights.parse tokens file trivial
  rw [hm] at hparse
  obtain ⟨d, _, hreads⟩ := hparse
  have hmap : (m.body.map Node.stmt).map Node.cost =
      m.body.map fun s => (s.form.expressions.map Expr.weight).sum := List.map_map
  have hreads : d.cost + 0 + ((m.body.map Node.stmt).map Node.cost).sum ≤ _ := hreads
  rw [Grammar.Cursor.cost_ofTokens, hmap] at hreads
  have := Token.credits_tokenize_le htokens
  omega

/-- An expression that a text is read as weighs no more than the text is long. -/
theorem weight_le_of_ofSource {text file : String} {m : Module} {s : Stmt} {e : Expr}
    (h : Module.ofSource text file = .ok m) (hs : s ∈ m.body) (he : s.form = .expr e) :
    e.weight ≤ text.length := by
  have hle := List.single_le_sum (fun _ _ => Nat.zero_le _) _
    (List.mem_map_of_mem (f := fun s : Stmt => (s.form.expressions.map Expr.weight).sum) hs)
  have hweight : (s.form.expressions.map Expr.weight).sum = e.weight := by
    rw [he]
    exact List.sum_singleton
  exact hweight ▸ Nat.le_trans hle (credits_le_of_ofSource h)

/-- Reading a text never runs out of fuel. -/
theorem ofSource_ne_exhausted (text file : String) :
    Module.ofSource text file ≠ .error .exhausted := by
  intro h
  unfold Module.ofSource at h
  cases htokens : Token.tokenize text file with
  | error fault =>
    rw [htokens] at h
    cases h
  | ok tokens =>
    rw [htokens] at h
    have hparse := Grammar.Reading.weights.parse tokens file trivial
    have h : Grammar.parse tokens file = .error .exhausted := h
    rw [h] at hparse
    exact hparse

end Credence

import Credence.Proofs.Tiling
import Credence.Proofs.Totality

namespace Credence

/-- The span of an expression is in order, and the spans of its children are inside of it. -/
structure Expr.Encloses (e : Expr) : Prop where
  forward : e.span.start.offset ≤ e.span.stop.offset
  children : ∀ c ∈ e.children,
    e.span.start.offset ≤ c.span.start.offset ∧ c.span.stop.offset ≤ e.span.stop.offset

/-- Tokens that end where they start or further on, and do not overlap. -/
structure Token.InOrder (tokens : List Token) : Prop where
  forward : ∀ t ∈ tokens, t.span.start.offset ≤ t.span.stop.offset
  apart : tokens.Pairwise fun t u => t.span.stop.offset ≤ u.span.start.offset

theorem Token.inOrder_of_tokenize {source file : String} {tokens : List Token}
    (h : tokenize source file = .ok tokens) : InOrder tokens := by
  refine ⟨fun t ht => ?_, (tiled_of_tokenize h).ordered⟩
  obtain ⟨before, piece, after, _, hspans⟩ := (tiled_of_tokenize h).exists_spans ht
  rw [hspans.start_offset, hspans.stop_offset, Text.byteLength_append]
  exact Nat.le_add_right _ _

/-- What stands first of two trees ends before the other one starts, if they are expressions. -/
def Node.Before (n m : Node) : Prop :=
  ∀ e f, n = .expr e → m = .expr f → e.span.stop.offset ≤ f.span.start.offset

namespace Grammar

theorem inOrder_withEndMark {tokens : List Token} (h : Token.InOrder tokens) (file : String) :
    Token.InOrder (withEndMark tokens file) := by
  unfold withEndMark
  split
  · refine ⟨fun t ht => ?_, List.pairwise_singleton _ _⟩
    rw [List.mem_singleton.1 ht]
    exact Nat.le_refl _
  · rename_i last hlast
    split
    · exact h
    · obtain ⟨init, rfl⟩ := List.getLast?_eq_some_iff.1 hlast
      refine ⟨fun t ht => ?_, List.pairwise_append.2 ⟨h.apart, List.pairwise_singleton _ _, ?_⟩⟩
      · rcases List.mem_append.1 ht with ht | ht
        · exact h.forward t ht
        · rw [List.mem_singleton.1 ht]
          exact Nat.le_refl _
      · intro t ht u hu
        rw [List.mem_singleton.1 hu]
        rcases List.mem_append.1 ht with hinit | hmem
        · have hlt := (List.pairwise_append.1 h.apart).2.2 t hinit last (List.mem_singleton_self _)
          have hlast := h.forward last (List.mem_append_right _ (List.mem_singleton_self _))
          exact Nat.le_trans hlt hlast
        · rw [List.mem_singleton.1 hmem]
          exact Nat.le_refl _

namespace Cursor

def Past (c : Cursor) (offset : Nat) : Prop :=
  ∃ p, c.passed = some p ∧ offset ≤ p.offset

structure Ordered (c : Cursor) : Prop where
  tokens : Token.InOrder c.tokens
  past : ∀ {offset}, c.Past offset → offset ≤ c.start.offset

theorem Past.mono {c : Cursor} {n m : Nat} (h : c.Past n) (hm : m ≤ n) : c.Past m :=
  h.imp fun _ hp => ⟨hp.1, Nat.le_trans hm hp.2⟩

theorem ordered_ofTokens {tokens : List Token} (h : Token.InOrder tokens) (file : String) :
    (ofTokens tokens file).Ordered := by
  have hpassed : (ofTokens tokens file).passed = none := by
    unfold ofTokens
    simp only
    split
    · split <;> rfl
    · rfl
  refine ⟨tokens_ofTokens tokens file ▸ inOrder_withEndMark h file, fun ⟨p, hp, _⟩ => ?_⟩
  rw [hpassed] at hp
  cases hp

theorem Ordered.next {c : Cursor} (h : c.Ordered) (hne : c.later ≠ []) :
    c.next.Ordered ∧ c.next.Past c.start.offset ∧ c.start.offset ≤ c.next.start.offset := by
  obtain ⟨current, later, passed, nextId⟩ := c
  cases later with
  | nil => exact absurd rfl hne
  | cons t ts =>
    have hforward := h.tokens.forward current List.mem_cons_self
    obtain ⟨hcurrent, hlater⟩ := List.pairwise_cons.1 h.tokens.apart
    have hnext := hcurrent t List.mem_cons_self
    refine ⟨⟨⟨fun u hu => h.tokens.forward u (List.mem_cons_of_mem _ hu), hlater⟩, ?_⟩,
      ⟨_, rfl, hforward⟩, Nat.le_trans hforward hnext⟩
    rintro n ⟨p, hp, hn⟩
    cases hp
    exact Nat.le_trans hn hnext

/-- What is known of the expressions that were read between two places: they stand between them, one
after the other, and the spans in them nest. -/
structure Spreads (c d : Cursor) (k : Nat) (ns : List Node) : Prop where
  ordered : d.Ordered
  start : c.start.offset ≤ d.start.offset
  past : ∀ {offset}, c.Past offset → d.Past offset
  paid : 0 < k → d.Past c.start.offset
  inside : ∀ e, .expr e ∈ ns → c.start.offset ≤ e.span.start.offset ∧ d.Past e.span.stop.offset
  apart : ns.Pairwise Node.Before
  encloses : ∀ e, .expr e ∈ ns.flatMap Node.nodes → e.Encloses

namespace Spreads

variable {c d e : Cursor} {k l : Nat} {ns ms : List Node}

theorem refl (h : c.Ordered) : c.Spreads c 0 [] :=
  ⟨h, Nat.le_refl _, id, nofun, nofun, .nil, nofun⟩

theorem pass (h : c.Spreads d k ns) (hne : d.later ≠ []) :
    c.Spreads d.next (k + d.current.credit) ns := by
  obtain ⟨hordered, hpast, hstart⟩ := h.ordered.next hne
  have hnext {offset : Nat} (ho : d.Past offset) : d.next.Past offset :=
    hpast.mono (h.ordered.past ho)
  refine ⟨hordered, Nat.le_trans h.start hstart, fun ho => hnext (h.past ho),
    fun _ => hpast.mono h.start, fun e he => ?_, h.apart, h.encloses⟩
  exact (h.inside e he).imp_right hnext

theorem trans (h : c.Spreads d k ns) (h' : d.Spreads e l ms) : c.Spreads e (k + l) (ns ++ ms) := by
  refine ⟨h'.ordered, Nat.le_trans h.start h'.start, fun ho => h'.past (h.past ho), fun hk => ?_,
    fun x hx => ?_, List.pairwise_append.2 ⟨h.apart, h'.apart, ?_⟩, fun x hx => ?_⟩
  · by_cases hl : 0 < l
    · exact (h'.paid hl).mono h.start
    · exact h'.past (h.paid (by omega))
  · rcases List.mem_append.1 hx with hx | hx
    · exact (h.inside x hx).imp_right h'.past
    · exact (h'.inside x hx).imp_left (Nat.le_trans h.start)
  · rintro _ hn _ hm x y rfl rfl
    exact Nat.le_trans (h.ordered.past (h.inside x hn).2) (h'.inside y hm).1
  · rw [List.flatMap_append] at hx
    exact (List.mem_append.1 hx).elim (h.encloses x) (h'.encloses x)

theorem spend (h : c.Spreads d k ns) (hl : l ≤ k) (hms : ms.Sublist ns) : c.Spreads d l ms := by
  refine ⟨h.ordered, h.start, h.past, fun hpos => ?_, fun e he => ?_, h.apart.sublist hms, fun e he => ?_⟩
  · exact h.paid (Nat.lt_of_lt_of_le hpos hl)
  · exact h.inside e (hms.subset he)
  · exact h.encloses e ((hms.flatMap _).subset he)

theorem encloses_of_mem (h : c.Spreads d k ns) {x : Expr} (hx : .expr x ∈ ns) : x.Encloses :=
  h.encloses x (List.mem_flatMap.2 ⟨_, hx, Node.mem_nodes_self _⟩)

theorem startsAt (h : c.Spreads d k ns) (hk : 0 < k) {p : Position} (hp : StartsAt c ns p) :
    c.start.offset ≤ p.offset ∧ d.Past p.offset ∧
      ∀ x, .expr x ∈ ns → p.offset ≤ x.span.start.offset := by
  rcases hp with rfl | ⟨head, hhead, rfl⟩
  · exact ⟨Nat.le_refl _, h.paid hk, fun x hx => (h.inside x hx).1⟩
  · obtain ⟨rest, rfl⟩ := List.head?_eq_some_iff.1 hhead
    obtain ⟨hstart, hstop⟩ := h.inside head List.mem_cons_self
    have hforward := (h.encloses_of_mem List.mem_cons_self).forward
    refine ⟨hstart, hstop.mono hforward, fun x hx => ?_⟩
    rcases List.mem_cons.1 hx with hx | hx
    · cases hx
      exact Nat.le_refl _
    · exact Nat.le_trans hforward ((List.pairwise_cons.1 h.apart).1 _ hx _ _ rfl rfl)

theorem spanned (h : c.Spreads d k ns) (hk : 0 < k) {span : Span} (hspan : Spanned c d ns span) :
    c.start.offset ≤ span.start.offset ∧ span.start.offset ≤ span.stop.offset ∧
      d.Past span.stop.offset ∧ ∀ x, .expr x ∈ ns →
        span.start.offset ≤ x.span.start.offset ∧ x.span.stop.offset ≤ span.stop.offset := by
  obtain ⟨hstart, hpast, hbefore⟩ := h.startsAt hk hspan.start
  rcases hspan.stop with hstop | ⟨last, hlast, hstop⟩
  · obtain ⟨p, hp, hle⟩ := hpast
    rw [hp, Option.getD_some] at hstop
    rw [hstop]
    refine ⟨hstart, hle, ⟨p, hp, Nat.le_refl _⟩, fun x hx => ⟨hbefore x hx, ?_⟩⟩
    obtain ⟨q, hq, hxq⟩ := (h.inside x hx).2
    rw [hp] at hq
    cases hq
    exact hxq
  · obtain ⟨init, rfl⟩ := List.getLast?_eq_some_iff.1 hlast
    have hmem : Node.expr last ∈ init ++ [.expr last] :=
      List.mem_append_right _ (List.mem_singleton_self _)
    have hforward := (h.encloses_of_mem hmem).forward
    rw [hstop]
    refine ⟨hstart, Nat.le_trans (hbefore last hmem) hforward, (h.inside last hmem).2,
      fun x hx => ⟨hbefore x hx, ?_⟩⟩
    rcases List.mem_append.1 hx with hinit | hx
    · have happart := (List.pairwise_append.1 h.apart).2.2 _ hinit _ (List.mem_singleton_self _)
      exact Nat.le_trans (happart _ _ rfl rfl) hforward
    · cases List.mem_singleton.1 hx
      exact Nat.le_refl _

theorem expr {form : ExprForm Expr} {span : Span} (h : c.Spreads d (k + form.own) ns)
    (hms : Unwraps ns ms) (hparts : (form.parts.map Node.expr).Subperm ms)
    (hspan : Spanned c d ns span) :
    c.Spreads { d with nextId := d.nextId + 1 } k [.expr ⟨d.nextId, form, span⟩] := by
  have hpaid : 0 < k + form.own := Nat.add_pos_right k form.own_pos
  obtain ⟨hstart, hforward, hpast, hinside⟩ := h.spanned hpaid hspan
  refine ⟨⟨h.ordered.tokens, h.ordered.past⟩, h.start, h.past, fun _ => h.paid hpaid,
    fun x hx => ?_, List.pairwise_singleton _ _, fun x hx => ?_⟩
  · cases List.mem_singleton.1 hx
    exact ⟨hstart, hpast⟩
  · rw [List.flatMap_singleton, Node.nodes_eq] at hx
    rcases List.mem_cons.1 hx with hx | hx
    · cases hx
      refine ⟨hforward, fun child hchild => ?_⟩
      have hmem := hparts.subset (List.mem_map_of_mem (form.children_sublist_parts.subset hchild))
      -- A child is one of the trees at hand, or a child of the one that was unwrapped.
      cases hms with
      | kept => exact hinside child hmem
      | unwrapped left rest =>
        rcases List.mem_append.1 hmem with hinner | hrest
        · obtain ⟨y, hy, heq⟩ := List.mem_map.1 hinner
          cases heq
          obtain ⟨hleft, hright⟩ := hinside left List.mem_cons_self
          have hnested := (h.encloses_of_mem List.mem_cons_self).children child hy
          exact ⟨Nat.le_trans hleft hnested.1, Nat.le_trans hnested.2 hright⟩
        · exact hinside child (List.mem_cons_of_mem _ hrest)
    · exact h.encloses x (hms.mem_nodes hparts hx)

theorem stmt {form : StmtForm Stmt} (span : Span) (h : c.Spreads d k ns) (hms : Unwraps ns ms)
    (hparts : form.parts.Subperm ms) :
    c.Spreads { d with nextId := d.nextId + 1 } k [.stmt ⟨d.nextId, form, span⟩] := by
  refine ⟨⟨h.ordered.tokens, h.ordered.past⟩, h.start, h.past, h.paid, fun x hx => ?_,
    List.pairwise_singleton _ _, fun x hx => ?_⟩
  · cases List.mem_singleton.1 hx
  · rw [List.flatMap_singleton, Node.nodes_eq] at hx
    rcases List.mem_cons.1 hx with hx | hx
    · cases hx
    · exact h.encloses x (hms.mem_nodes hparts hx)

end Spreads

end Cursor

def Reading.spans : Reading where
  inv := Cursor.Ordered
  reads := Cursor.Spreads
  fault _ := True
  inv_of_reads h := h.ordered
  refl := Cursor.Spreads.refl
  pass := Cursor.Spreads.pass
  trans := Cursor.Spreads.trans
  spend := Cursor.Spreads.spend
  expr := Cursor.Spreads.expr
  stmt := Cursor.Spreads.stmt
  fail _ _ := trivial

end Grammar

/-- The spans of expressions nest. An expression of a module, at any depth, ends where it starts or
further on, and each of its children starts and ends inside of it. -/
theorem spans_nest_of_ofSource {source file : String} {m : Module}
    (h : Module.ofSource source file = .ok m) :
    ∀ e, .expr e ∈ bodyNodes m.body →
      e.span.start.offset ≤ e.span.stop.offset ∧
      ∀ c ∈ e.children,
        e.span.start.offset ≤ c.span.start.offset ∧ c.span.stop.offset ≤ e.span.stop.offset := by
  intro e he
  unfold Module.ofSource at h
  cases htokens : Token.tokenize source file with
  | error fault =>
    rw [htokens] at h
    cases h
  | ok tokens =>
    rw [htokens] at h
    have hordered := Grammar.Cursor.ordered_ofTokens (Token.inOrder_of_tokenize htokens) file
    have hparse := Grammar.Reading.spans.parse tokens file hordered
    have h : Grammar.parse tokens file = .ok m := h
    rw [h] at hparse
    obtain ⟨d, _, hspreads⟩ := hparse
    rw [Node.bodyNodes_eq] at he
    have hencloses : e.Encloses := hspreads.encloses e he
    exact ⟨hencloses.forward, hencloses.children⟩

/-- The brackets around an operand belong to no span, also at the start and at the end of an expression. -/
theorem spans_nest_of_ofSource_brackets :
    ∃ m, Module.ofSource "x = (a) if (b or c or d) else (e)\n" "main.py" = .ok m ∧
      (m.body.flatMap fun s => s.form.expressions.flatMap fun e =>
        (e :: e.children).map fun c => (c.span.start.offset, c.span.stop.offset)) =
        [(0, 1), (5, 32), (12, 23), (5, 6), (31, 32)] ∧
      ∀ e, .expr e ∈ bodyNodes m.body →
        e.span.start.offset ≤ e.span.stop.offset ∧
        ∀ c ∈ e.children,
          e.span.start.offset ≤ c.span.start.offset ∧ c.span.stop.offset ≤ e.span.stop.offset := by
  have hspans : (Module.ofSource "x = (a) if (b or c or d) else (e)\n" "main.py").toOption.map
      (fun m => m.body.flatMap fun s => s.form.expressions.flatMap fun e =>
        (e :: e.children).map fun c => (c.span.start.offset, c.span.stop.offset)) =
      some [(0, 1), (5, 32), (12, 23), (5, 6), (31, 32)] := by
    decide +kernel
  cases hm : Module.ofSource "x = (a) if (b or c or d) else (e)\n" "main.py" with
  | error stop =>
    rw [hm] at hspans
    cases hspans
  | ok m =>
    rw [hm] at hspans
    exact ⟨m, rfl, Option.some.inj hspans, spans_nest_of_ofSource hm⟩

end Credence

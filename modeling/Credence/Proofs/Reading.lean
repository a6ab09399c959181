import Mathlib.Algebra.Order.BigOperators.Group.List
import Mathlib.Algebra.Order.Ring.Nat
import Mathlib.Data.List.Flatten
import Mathlib.Data.List.Perm.Subperm
import Credence.Grammar.Source
import Credence.Proofs.Node
import Credence.Tree.Weight

namespace Credence

/-- What a token pays for. The layout pays for nothing, and a literal for its text too. -/
def Token.credit (t : Token) : Nat :=
  match t.kind with
  | .string | .formatString | .bytes => t.value.length + 1
  | .newline | .indent | .dedent | .eof => 0
  | _ => 1

def Token.Kind.pays : Kind → Bool
  | newline | indent | dedent | eof => false
  | _ => true

theorem Token.one_le_credit {t : Token} (h : t.kind.pays = true) : 1 ≤ t.credit := by
  unfold Token.credit
  split
  any_goals omega
  all_goals
    rename_i hk
    rw [hk] at h
    cases h

theorem Token.Kind.ne_eof_of_pays {k : Kind} (h : k.pays = true) : k ≠ .eof := by
  rintro rfl
  cases h

namespace Grammar

open Token (Kind)

namespace Cursor

/-- How many tokens may still be passed. -/
def room (c : Cursor) : Nat :=
  c.later.length

def Ended (c : Cursor) : Prop :=
  ∃ t, (c.current :: c.later).getLast? = some t ∧ t.kind = .eof

theorem Ended.later_ne_nil {c : Cursor} (h : c.Ended) (hk : c.kind ≠ .eof) : c.later ≠ [] := by
  intro hnil
  obtain ⟨t, ht, heof⟩ := h
  rw [hnil] at ht
  cases ht
  exact hk heof

theorem Ended.next {c : Cursor} (h : c.Ended) : c.next.Ended := by
  obtain ⟨t, ht, heof⟩ := h
  unfold Cursor.next
  cases hl : c.later with
  | nil => exact ⟨t, ht, heof⟩
  | cons u us =>
    rw [hl, List.getLast?_cons_cons] at ht
    exact ⟨t, ht, heof⟩

theorem room_next {c : Cursor} (h : c.later ≠ []) : c.next.room + 1 = c.room := by
  unfold Cursor.next room
  cases hl : c.later with
  | nil => exact absurd hl h
  | cons u us => simp

theorem getD_passed_next {c : Cursor} {p : Position} (h : c.later ≠ []) :
    c.next.passed.getD p = c.current.span.stop := by
  unfold Cursor.next
  cases hl : c.later with
  | nil => exact absurd hl h
  | cons u us => rfl

theorem kind_next {c : Cursor} (h : c.later ≠ []) : c.next.kind = c.nextKind := by
  unfold Cursor.next nextKind
  cases hl : c.later with
  | nil => exact absurd hl h
  | cons u us => rfl

end Cursor

/-- Trees at hand, as they are or with the sub-expressions of the first one in its place. -/
inductive Unwraps : List Node → List Node → Prop where
  | kept (ns : List Node) : Unwraps ns ns
  | unwrapped (e : Expr) (ns : List Node) : Unwraps (.expr e :: ns) (e.children.map .expr ++ ns)

theorem Unwraps.sublist_nodes {ns ms : List Node} (h : Unwraps ns ms) :
    (ms.flatMap Node.nodes).Sublist (ns.flatMap Node.nodes) := by
  cases h with
  | kept => exact .refl _
  | unwrapped e ns =>
    rw [List.flatMap_append, List.flatMap_cons, Node.nodes_eq]
    have hchildren := (e.children_sublist_parts.map Node.expr).flatMap Node.nodes
    exact (hchildren.trans (List.sublist_cons_self _ _)).append_right _

theorem Unwraps.mem_nodes {ns ms parts : List Node} (h : Unwraps ns ms) (hparts : parts.Subperm ms)
    {n : Node} (hn : n ∈ parts.flatMap Node.nodes) : n ∈ ns.flatMap Node.nodes := by
  obtain ⟨p, hp, hn⟩ := List.mem_flatMap.1 hn
  exact h.sublist_nodes.subset (List.mem_flatMap.2 ⟨p, hparts.subset hp, hn⟩)

/-- An expression that is built from trees starts where they were read from, or where the first of
them does. -/
def StartsAt (c : Cursor) (ns : List Node) (p : Position) : Prop :=
  p = c.start ∨ ∃ e, ns.head? = some (.expr e) ∧ p = e.span.start

theorem startsAt_head (c : Cursor) {e : Expr} (ns : List Node) :
    StartsAt c (.expr e :: ns) e.span.start :=
  .inr ⟨e, rfl, rfl⟩

/-- An expression that is built from trees reaches to the token passed last, or to where the last of
them does. -/
structure Spanned (c d : Cursor) (ns : List Node) (span : Span) : Prop where
  start : StartsAt c ns span.start
  stop : span.stop = d.passed.getD span.start ∨
    ∃ e, ns.getLast? = some (.expr e) ∧ span.stop = e.span.stop

/-- What is said of the trees between two places, and of faults. -/
structure Reading where
  inv : Cursor → Prop
  reads : Cursor → Cursor → Nat → List Node → Prop
  fault : Fault → Prop
  inv_of_reads : ∀ {c d : Cursor} {k : Nat} {ns : List Node}, reads c d k ns → inv d
  refl : ∀ {c : Cursor}, inv c → reads c c 0 []
  pass : ∀ {c d : Cursor} {k : Nat} {ns : List Node}, reads c d k ns → d.later ≠ [] →
    reads c d.next (k + d.current.credit) ns
  trans : ∀ {c d e : Cursor} {k l : Nat} {ns ms : List Node}, reads c d k ns → reads d e l ms →
    reads c e (k + l) (ns ++ ms)
  spend : ∀ {c d : Cursor} {k l : Nat} {ns ms : List Node}, reads c d k ns → l ≤ k →
    ms.Sublist ns → reads c d l ms
  expr : ∀ {c d : Cursor} {k : Nat} {form : ExprForm Expr} {span : Span} {ns ms : List Node},
    reads c d (k + form.own) ns → Unwraps ns ms → (form.parts.map Node.expr).Subperm ms →
    Spanned c d ns span →
    reads c { d with nextId := d.nextId + 1 } k [.expr ⟨d.nextId, form, span⟩]
  stmt : ∀ {c d : Cursor} {k : Nat} {form : StmtForm Stmt} {ns ms : List Node} (span : Span),
    reads c d k ns → Unwraps ns ms → form.parts.Subperm ms →
    reads c { d with nextId := d.nextId + 1 } k [.stmt ⟨d.nextId, form, span⟩]
  fail : ∀ {c : Cursor} (cause : Cause), inv c → fault ⟨cause, c.start⟩

namespace Reading

variable {α β : Type} (R : Reading)

/-- Between two places at least so many tokens were passed, so many are not spent, and these trees
were read. -/
structure Read (o c : Cursor) (m k : Nat) (ns : List Node) : Prop where
  nodes : R.reads o c k ns
  ended : c.Ended
  room : c.room + m ≤ o.room

structure Starts (c : Cursor) : Prop where
  inv : R.inv c
  ended : c.Ended

/-- What a parser gives from a place: a result and the place after it, or a fault, but it never runs
out of fuel. -/
def Gives (p : Parser α) (c : Cursor) (Q : α → Cursor → Prop) : Prop :=
  match p.run c with
  | .ok (a, d) => Q a d
  | .error (.fault f) => R.fault f
  | .error .exhausted => False

variable {R}

section Read

variable {o c d : Cursor} {m k : Nat} {ns : List Node}

theorem Starts.read (h : R.Starts c) : R.Read c c 0 0 [] :=
  ⟨R.refl h.inv, h.ended, Nat.le_refl _⟩

theorem Read.starts (h : R.Read o c m k ns) : R.Starts c :=
  ⟨R.inv_of_reads h.nodes, h.ended⟩

theorem Read.next (h : R.Read o c m k ns) (hk : c.kind ≠ .eof) :
    R.Read o c.next (m + 1) (k + c.current.credit) ns := by
  have hlater := h.ended.later_ne_nil hk
  have hroom := Cursor.room_next hlater
  have := h.room
  exact ⟨R.pass h.nodes hlater, h.ended.next, by omega⟩

theorem Read.less {l j : Nat} {ms : List Node} (h : R.Read o c m k ns) (hj : j ≤ m) (hl : l ≤ k)
    (hms : ms.Sublist ns) : R.Read o c j l ms := by
  have := h.room
  exact ⟨R.spend h.nodes hl hms, h.ended, by omega⟩

theorem Read.pass (h : R.Read o c m k ns) (hk : c.kind.pays = true) :
    R.Read o c.next (m + 1) (k + 1) ns := by
  obtain ⟨nodes, ended, room⟩ := h.next (Kind.ne_eof_of_pays hk)
  have hcredit : 1 ≤ c.current.credit := Token.one_le_credit hk
  exact ⟨R.spend nodes (by omega) (.refl ns), ended, room⟩

theorem Read.skip {kind : Kind} (h : R.Read o c m k ns) (hk : c.kind = kind) (hne : kind ≠ .eof) :
    R.Read o c.next (m + 1) k ns := by
  have hgoes : c.kind ≠ .eof := fun he => hne (hk.symm.trans he)
  exact (h.next hgoes).less (Nat.le_refl _) (Nat.le_add_right _ _) (.refl ns)

theorem Read.trans {l j : Nat} {ms : List Node} (h : R.Read o c m k ns) (h' : R.Read c d j l ms) :
    R.Read o d (m + j) (k + l) (ns ++ ms) := by
  have := h.room
  have := h'.room
  exact ⟨R.trans h.nodes h'.nodes, h'.ended, by omega⟩

theorem Read.room_lt {n : Nat} (h : R.Read o c (m + 1) k ns) (hn : o.room ≤ n) : c.room < n := by
  have := h.room
  omega

theorem Read.room_le (h : R.Read o c m k ns) : c.room ≤ o.room := by
  have := h.room
  omega

end Read

namespace Gives

variable {c : Cursor} {Q Q' : α → Cursor → Prop}

theorem imp {p : Parser α} (h : R.Gives p c Q) (himp : ∀ a d, Q a d → Q' a d) :
    R.Gives p c Q' := by
  unfold Gives at *
  split at h
  · exact himp _ _ h
  · exact h
  · exact h

protected theorem pure {a : α} (h : Q a c) : R.Gives (pure a) c Q :=
  h

theorem pure_bind {a : α} {f : α → Parser β} {Q : β → Cursor → Prop} (h : R.Gives (f a) c Q) :
    R.Gives (Pure.pure a >>= f) c Q :=
  h

protected theorem bind {p : Parser α} {f : α → Parser β} {Q' : β → Cursor → Prop}
    (hp : R.Gives p c Q) (hf : ∀ a d, Q a d → R.Gives (f a) d Q') : R.Gives (p >>= f) c Q' := by
  unfold Gives at hp
  unfold Gives
  rw [StateT.run_bind]
  rcases h : p.run c with e | ⟨a, d⟩
  · rw [h] at hp
    cases e with
    | fault f => exact hp
    | exhausted => exact hp
  · rw [h] at hp
    exact hf a d hp

protected theorem get_bind {f : Cursor → Parser β} {Q : β → Cursor → Prop}
    (h : R.Gives (f c) c Q) : R.Gives (get >>= f) c Q :=
  h

theorem kind_bind {f : Kind → Parser β} {Q : β → Cursor → Prop} (h : R.Gives (f c.kind) c Q) :
    R.Gives (kind >>= f) c Q :=
  h

theorem start_bind {f : Position → Parser β} {Q : β → Cursor → Prop}
    (h : R.Gives (f c.start) c Q) : R.Gives (start >>= f) c Q :=
  h

theorem at_bind {k : Kind} {f : Bool → Parser β} {Q : β → Cursor → Prop}
    (h : R.Gives (f (c.kind == k)) c Q) : R.Gives (at? k >>= f) c Q :=
  h

theorem advance_bind {f : Token → Parser β} {Q : β → Cursor → Prop}
    (h : R.Gives (f c.current) c.next Q) : R.Gives (advance >>= f) c Q :=
  h

theorem ite_at {k : Kind} {p q : Parser β} {Q : β → Cursor → Prop}
    (hp : c.kind = k → R.Gives p c Q) (hq : c.kind ≠ k → R.Gives q c Q) :
    R.Gives (at? k >>= fun b => if b then p else q) c Q := by
  refine at_bind ?_
  by_cases hk : c.kind = k
  · rw [if_pos (by simpa using hk)]
    exact hp hk
  · rw [if_neg (by simpa using hk)]
    exact hq hk

theorem eat_bind {k : Kind} {f : Bool → Parser β} {Q : β → Cursor → Prop}
    (hp : c.kind = k → R.Gives (f true) c.next Q) (hq : c.kind ≠ k → R.Gives (f false) c Q) :
    R.Gives (eat k >>= f) c Q := by
  have heat : R.Gives (eat k) c fun b d =>
      (b = true ∧ c.kind = k ∧ d = c.next) ∨ (b = false ∧ c.kind ≠ k ∧ d = c) := by
    refine ite_at (fun hk => advance_bind ?_) fun hk => ?_
    · exact Gives.pure (.inl ⟨rfl, hk, rfl⟩)
    · exact Gives.pure (.inr ⟨rfl, hk, rfl⟩)
  refine Gives.bind heat fun b d h => ?_
  rcases h with ⟨rfl, hk, rfl⟩ | ⟨rfl, hk, rfl⟩
  · exact hp hk
  · exact hq hk

protected theorem fail {cause : Cause} (h : R.inv c) :
    R.Gives (Grammar.fail cause c.start : Parser α) c Q :=
  R.fail cause h

protected theorem unexpected {detail : String} (h : R.inv c) :
    R.Gives (unexpected detail : Parser α) c Q :=
  R.fail _ h

theorem expectOr_bind {k : Kind} {detail : String} {f : Token → Parser β}
    {Q : β → Cursor → Prop} (h : R.inv c) (hp : c.kind = k → R.Gives (f c.current) c.next Q) :
    R.Gives (expectOr k detail >>= f) c Q := by
  have hexpect : R.Gives (expectOr k detail) c fun t d =>
      c.kind = k ∧ t = c.current ∧ d = c.next :=
    ite_at (fun hk => ⟨hk, rfl, rfl⟩) fun _ => Gives.unexpected h
  refine Gives.bind hexpect fun t d ht => ?_
  obtain ⟨hk, rfl, rfl⟩ := ht
  exact hp hk

theorem and_run {p : Parser α} (h : R.Gives p c Q) :
    R.Gives p c fun a d => Q a d ∧ p.run c = .ok (a, d) := by
  unfold Gives at *
  cases hrun : p.run c with
  | ok result =>
    rw [hrun] at h
    exact ⟨h, rfl⟩
  | error e =>
    rw [hrun] at h
    cases e with
    | fault f => exact h
    | exhausted => exact h

section Passing

variable {o : Cursor} {m n : Nat} {ns : List Node} {Q : β → Cursor → Prop}

theorem pass_bind {f : Token → Parser β} (h : R.Read o c m n ns) (hk : c.kind.pays = true)
    (hf : R.Read o c.next (m + 1) (n + 1) ns → R.Gives (f c.current) c.next Q) :
    R.Gives (advance >>= f) c Q :=
  advance_bind (hf (h.pass hk))

theorem expect_bind {k : Kind} {detail : String} {f : Token → Parser β} (h : R.Read o c m n ns)
    (hk : k.pays = true)
    (hf : R.Read o c.next (m + 1) (n + 1) ns → R.Gives (f c.current) c.next Q) :
    R.Gives (expectOr k detail >>= f) c Q := by
  refine expectOr_bind h.starts.inv fun hc => hf (h.pass ?_)
  rw [hc]
  exact hk

theorem eat_or {k : Kind} {f : Bool → Parser β} (h : R.Read o c m n ns) (hk : k.pays = true)
    (hp : R.Read o c.next (m + 1) (n + 1) ns → R.Gives (f true) c.next Q)
    (hq : R.Gives (f false) c Q) : R.Gives (eat k >>= f) c Q := by
  refine eat_bind (fun hc => hp (h.pass ?_)) fun _ => hq
  rw [hc]
  exact hk

end Passing

theorem after {p : Parser α} {f : α → Parser β} {Q : β → Cursor → Prop} {o : Cursor}
    {m k : Nat} {j l : α → Nat} {ns : List Node} {nodes : α → List Node} (h : R.Read o c m k ns)
    (hp : R.Gives p c fun a d => R.Read c d (j a) (l a) (nodes a))
    (hf : ∀ a d, R.Read o d (m + j a) (k + l a) (ns ++ nodes a) → R.Gives (f a) d Q) :
    R.Gives (p >>= f) c Q :=
  Gives.bind hp fun a d hd => hf a d (h.trans hd)

variable {o : Cursor} {m k j l : Nat} {ns ms : List Node}

protected theorem mkExpr {form : ExprForm Expr} {span : Span} (h : R.Read o c m k ns)
    (hj : j ≤ m) (hl : l + form.own ≤ k) (hspan : Spanned o c ns span) (hms : Unwraps ns ms)
    (hparts : (form.parts.map Node.expr).Subperm ms) :
    R.Gives (mkExpr form span) c fun e d => R.Read o d j l [.expr e] := by
  have hroom := h.room
  refine ⟨R.expr (R.spend h.nodes hl (.refl ns)) hms hparts hspan, h.ended, ?_⟩
  exact Nat.le_trans (Nat.add_le_add_left hj _) hroom

protected theorem exprFrom {form : ExprForm Expr} {place : Position} (h : R.Read o c m k ns)
    (hj : j ≤ m) (hl : l + form.own ≤ k) (hplace : StartsAt o ns place)
    (hparts : (form.parts.map Node.expr).Subperm ns) :
    R.Gives (exprFrom place form) c fun e d => R.Read o d j l [.expr e] :=
  Gives.get_bind (Gives.mkExpr h hj hl ⟨hplace, .inl rfl⟩ (.kept ns) hparts)

protected theorem exprAcross {form : ExprForm Expr} {left right : Expr} (h : R.Read o c m k ns)
    (hj : j ≤ m) (hl : l + form.own ≤ k) (hleft : ns.head? = some (.expr left))
    (hright : ns.getLast? = some (.expr right)) (hms : Unwraps ns ms)
    (hparts : (form.parts.map Node.expr).Subperm ms) :
    R.Gives (exprAcross left right form) c fun e d => R.Read o d j l [.expr e] :=
  Gives.mkExpr h hj hl ⟨.inr ⟨left, hleft, rfl⟩, .inr ⟨right, hright, rfl⟩⟩ hms hparts

protected theorem mkStmt {form : StmtForm Stmt} {span : Span} (h : R.Read o c m k ns)
    (hj : j ≤ m) (hl : l ≤ k) (hms : Unwraps ns ms) (hparts : form.parts.Subperm ms) :
    R.Gives (mkStmt form span) c fun s d => R.Read o d j l [.stmt s] := by
  have hroom := h.room
  refine ⟨R.stmt span (R.spend h.nodes hl (.refl ns)) hms hparts, h.ended, ?_⟩
  exact Nat.le_trans (Nat.add_le_add_left hj _) hroom

protected theorem stmtFrom {form : StmtForm Stmt} {place : Position} (h : R.Read o c m k ns)
    (hj : j ≤ m) (hl : l ≤ k) (hparts : form.parts.Subperm ns) :
    R.Gives (stmtFrom place form) c fun s d => R.Read o d j l [.stmt s] :=
  Gives.get_bind (Gives.mkStmt h hj hl (.kept ns) hparts)

end Gives

section Loops

variable {nodes : α → List Node} {credit : α → Nat} {b : Nat}

/-- A step of a loop: it ends the loop, or passes a token and reads some trees. -/
def Rounds (R : Reading) (step : Parser (Option α)) (b : Nat) (nodes : α → List Node)
    (credit : α → Nat) : Prop :=
  ∀ c, R.Starts c → c.room < b → R.Gives step c fun r d =>
    match r with
    | none => R.Read c d 0 0 []
    | some a => R.Read c d 1 (credit a) (nodes a)

theorem Rounds.collectUpTo {step : Parser (Option α)} (hstep : R.Rounds step b nodes credit)
    {n : Nat} {c : Cursor} (hc : R.Starts c) (hn : c.room < n) (hb : c.room < b) :
    R.Gives (collectUpTo step n) c fun as d =>
      R.Read c d as.length (as.map credit).sum (as.flatMap nodes) := by
  induction n generalizing c with
  | zero => omega
  | succ n ih =>
    refine Gives.bind (hstep c hc hb) fun r d hd => ?_
    cases r with
    | none => exact Gives.pure (hd.less (Nat.le_refl _) (Nat.le_refl _) (.refl _))
    | some a =>
      have hroom := hd.room
      refine Gives.bind (ih hd.starts (by omega) (by omega)) fun as e he => ?_
      exact Gives.pure ((hd.trans he).less (by rw [List.length_cons]; omega) (Nat.le_refl _)
        (.refl _))

theorem Rounds.collect {step : Parser (Option α)} (hstep : R.Rounds step b nodes credit)
    {c : Cursor} (hc : R.Starts c) (hb : c.room < b) :
    R.Gives (collect step) c fun as d =>
      R.Read c d as.length (as.map credit).sum (as.flatMap nodes) := by
  refine Gives.get_bind (hstep.collectUpTo hc ?_ hb)
  unfold Cursor.budget Cursor.room
  omega

theorem run_of_collect_nil {step : Parser (Option α)} {c d : Cursor}
    (h : (collect step).run c = .ok ([], d)) : step.run c = .ok (none, d) := by
  have hloop : (collectUpTo step (c.later.length + 1 + 1)).run c = .ok ([], d) := h
  unfold Grammar.collectUpTo at hloop
  rw [StateT.run_bind] at hloop
  rcases hrun : step.run c with e | ⟨r, e⟩
  · rw [hrun] at hloop
    cases hloop
  · rw [hrun] at hloop
    cases r with
    | none =>
      cases hloop
      rfl
    | some a =>
      change ((collectUpTo step _).run e >>= fun r => pure (a :: r.1, r.2)) = _ at hloop
      cases hrest : (collectUpTo step (c.later.length + 1)).run e with
      | error stop =>
        rw [hrest] at hloop
        cases hloop
      | ok r =>
        rw [hrest] at hloop
        cases hloop

theorem Rounds.collect_ne_nil {step : Parser (Option α)} (hstep : R.Rounds step b nodes credit)
    {c : Cursor} (hc : R.Starts c) (hb : c.room < b)
    (hsome : R.Gives step c fun r _ => r.isSome = true) :
    R.Gives (Grammar.collect step) c fun as d =>
      as ≠ [] ∧ R.Read c d as.length (as.map credit).sum (as.flatMap nodes) := by
  refine (hstep.collect hc hb).and_run.imp fun as d h => ⟨?_, h.1⟩
  rintro rfl
  unfold Gives at hsome
  rw [run_of_collect_nil h.2] at hsome
  cases hsome

def Looks (p : Parser Bool) : Prop :=
  ∀ c, ∃ found, p.run c = .ok (found, c)

theorem Looks.kind_bind {f : Kind → Parser Bool}
    (h : ∀ c : Cursor, ∃ found, (f c.kind).run c = .ok (found, c)) : Looks (kind >>= f) :=
  h

theorem looks_at (k : Kind) : Looks (at? k) :=
  fun c => ⟨c.kind == k, rfl⟩

theorem looks_false : Looks (pure false) :=
  fun _ => ⟨false, rfl⟩

theorem Looks.bind {p : Parser Bool} (h : Looks p) {c : Cursor} {f : Bool → Parser β}
    {Q : β → Cursor → Prop} (hf : ∀ found, R.Gives (f found) c Q) : R.Gives (p >>= f) c Q := by
  obtain ⟨found, hrun⟩ := h c
  unfold Gives
  rw [StateT.run_bind, hrun]
  exact hf found

/-- An item of a list passes a token and reads some trees. -/
def Items (R : Reading) (item : Parser α) (b : Nat) (nodes : α → List Node) : Prop :=
  ∀ c, R.Starts c → c.room < b → R.Gives item c fun a d => R.Read c d 1 0 (nodes a)

theorem ne_eof_of_kind {c : Cursor} {k : Kind} (h : c.kind = k) (hk : k ≠ .eof) : c.kind ≠ .eof :=
  fun he => hk (h.symm.trans he)

theorem Items.commaListUpTo {done : Parser Bool} {item : Parser α} (hdone : Looks done)
    (hitem : R.Items item b nodes) {n : Nat} {c : Cursor} (hc : R.Starts c) (hn : c.room < n)
    (hb : c.room < b) :
    R.Gives (commaListUpTo done item n) c fun as d => R.Read c d 0 0 (as.flatMap nodes) := by
  induction n generalizing c with
  | zero => omega
  | succ n ih =>
    refine hdone.bind fun found => ?_
    cases found with
    | true => exact Gives.pure hc.read
    | false =>
      refine Gives.after hc.read (hitem c hc hb) fun a d hd => ?_
      have hroom := hd.room
      refine Gives.eat_bind (fun hk => ?_) fun _ => ?_
      · have hnext := hd.next (ne_eof_of_kind hk nofun)
        have hroom' := hnext.room
        refine Gives.after hnext (ih hnext.starts (by omega) (by omega)) fun as e he => ?_
        exact Gives.pure (he.less (Nat.zero_le _) (Nat.zero_le _) (.refl _))
      · exact Gives.pure (hd.less (Nat.zero_le _) (Nat.zero_le _) (by simp))

theorem Items.commaList {done : Parser Bool} {item : Parser α} (hdone : Looks done)
    (hitem : R.Items item b nodes) {c : Cursor} (hc : R.Starts c) (hb : c.room < b) :
    R.Gives (commaList done item) c fun as d => R.Read c d 0 0 (as.flatMap nodes) := by
  refine Gives.get_bind (hitem.commaListUpTo hdone hc ?_ hb)
  unfold Cursor.budget Cursor.room
  omega

theorem Items.moreItems {done : Parser Bool} {item : Parser α} (hdone : Looks done)
    (hitem : R.Items item b nodes) {c : Cursor} (hc : R.Starts c) (hb : c.room < b) :
    R.Gives (moreItems done item) c fun as d => R.Read c d 0 0 (as.flatMap nodes) := by
  refine Gives.eat_bind (fun hk => ?_) fun _ => Gives.pure hc.read
  have hnext := hc.read.next (ne_eof_of_kind hk nofun)
  have hroom := hnext.room
  refine (hitem.commaList hdone hnext.starts (by omega)).imp fun as d hd => ?_
  exact (hnext.trans hd).less (Nat.zero_le _) (Nat.zero_le _) (.refl _)

theorem Items.moreItems_of_comma {done : Parser Bool} {item : Parser α} (hdone : Looks done)
    (hitem : R.Items item b nodes) {c : Cursor} (hc : R.Starts c) (hb : c.room < b)
    (hk : c.kind = .comma) :
    R.Gives (Grammar.moreItems done item) c fun as d => R.Read c d 0 1 (as.flatMap nodes) := by
  refine Gives.eat_bind (fun _ => ?_) fun hne => absurd hk hne
  have hnext := hc.read.next (ne_eof_of_kind hk nofun)
  have hroom := hnext.room
  have hcredit : c.current.credit = 1 := by
    unfold Token.credit
    rw [show c.current.kind = .comma from hk]
  refine (hitem.commaList hdone hnext.starts (by omega)).imp fun as d hd => ?_
  exact (hnext.trans hd).less (Nat.zero_le _) (by omega) (.refl _)

end Loops

end Reading

end Grammar

end Credence

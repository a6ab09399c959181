import Credence.Grammar.Stmt
import Credence.Proofs.Wording

namespace Credence.Grammar

open Token (Kind Face face)

/-- What a parser reads of the tokens from a place on. -/
def Cursor.faces (c : Cursor) : List Face :=
  (c.current :: c.later).map face

theorem Cursor.nextKind_of_faces {c : Cursor} {f g : Face} {gs : List Face}
    (hc : c.faces = f :: g :: gs) : c.nextKind = g.1 := by
  obtain ⟨current, later, passed, id⟩ := c
  have hlater := (List.cons.inj hc).2
  cases later with
  | nil => cases hlater
  | cons t ts => exact congrArg Prod.fst (List.cons.inj hlater).1

/-- A parser passes from some tokens to others, with a result of which something holds. -/
def Takes {α : Type} (x : Parser α) (fs gs : List Face) (P : α → Prop) : Prop :=
  ∀ c : Cursor, c.faces = fs → ∃ a d, x.run c = .ok (a, d) ∧ d.faces = gs ∧ P a

namespace Takes

variable {α β : Type} {x : Parser α} {f : Face} {fs gs hs : List Face} {P : α → Prop}

theorem pure {a : α} (h : P a) : Takes (Pure.pure a) fs fs P :=
  fun c hc => ⟨a, c, rfl, hc, h⟩

theorem bind {y : α → Parser β} {Q : β → Prop} (hx : Takes x fs gs P)
    (hy : ∀ a, P a → Takes (y a) gs hs Q) : Takes (x >>= y) fs hs Q := by
  intro c hc
  obtain ⟨a, d, hrun, hd, ha⟩ := hx c hc
  obtain ⟨b, e, hrun', he, hb⟩ := hy a ha d hd
  refine ⟨b, e, ?_, he, hb⟩
  rw [StateT.run_bind, hrun]
  exact hrun'

theorem imp {Q : α → Prop} (hx : Takes x fs gs P) (h : ∀ a, P a → Q a) : Takes x fs gs Q := by
  intro c hc
  obtain ⟨a, d, hrun, hd, ha⟩ := hx c hc
  exact ⟨a, d, hrun, hd, h a ha⟩

theorem of_run {y : Parser α}
    (h : ∀ value span later passed id,
      x.run ⟨⟨f.1, value, span⟩, later, passed, id⟩ = y.run ⟨⟨f.1, value, span⟩, later, passed, id⟩)
    (hy : Takes y (f :: fs) gs P) : Takes x (f :: fs) gs P := by
  rintro ⟨⟨kind, value, span⟩, later, passed, id⟩ hc
  obtain rfl : kind = f.1 := congrArg Prod.fst (List.cons.inj hc).1
  rw [h]
  exact hy _ hc

theorem get : Takes get fs fs fun c => c.faces = fs :=
  fun c hc => ⟨c, c, rfl, hc, hc⟩

/-- Only the last token cannot be passed. -/
theorem advance {g : Face} : Takes advance (f :: g :: gs) (g :: gs) fun t => face t = f := by
  rintro ⟨current, later, passed, nextId⟩ hc
  cases later with
  | nil => cases hc
  | cons t ts =>
    obtain ⟨hcurrent, hlater⟩ := List.cons.inj hc
    exact ⟨current, ⟨t, ts, some current.span.stop, nextId⟩, rfl, hlater, hcurrent⟩

theorem kind : Takes kind (f :: fs) (f :: fs) (· = f.1) := by
  intro c hc
  have hkind : c.kind = f.1 := congrArg Prod.fst (List.cons.inj hc).1
  exact ⟨c.kind, c, rfl, hc, hkind⟩

theorem start : Takes start fs fs fun _ => True :=
  fun c hc => ⟨c.start, c, rfl, hc, trivial⟩

theorem at? (k : Kind) : Takes (at? k) (f :: fs) (f :: fs) (· = (f.1 == k)) := by
  intro c hc
  have hkind : c.kind = f.1 := congrArg Prod.fst (List.cons.inj hc).1
  exact ⟨c.kind == k, c, rfl, hc, congrArg (· == k) hkind⟩

theorem eat {k : Kind} {g : Face} (h : f.1 = k) :
    Takes (eat k) (f :: g :: gs) (g :: gs) (· = true) := by
  refine (at? k).bind fun b hb => ?_
  rw [hb, h, if_pos (beq_self_eq_true k)]
  exact advance.bind fun _ _ => .pure rfl

theorem eat_other {k : Kind} (h : f.1 ≠ k) : Takes (Grammar.eat k) (f :: fs) (f :: fs) (· = false) := by
  refine (at? k).bind fun b hb => ?_
  rw [hb, beq_eq_false_iff_ne.2 h]
  exact .pure rfl

theorem expectOr {k : Kind} {g : Face} {detail : String} (h : f.1 = k) :
    Takes (expectOr k detail) (f :: g :: gs) (g :: gs) fun t => face t = f := by
  refine (at? k).bind fun b hb => ?_
  rw [hb, h, if_pos (beq_self_eq_true k)]
  exact advance

theorem expect {k : Kind} {g : Face} (h : f.1 = k) :
    Takes (expect k) (f :: g :: gs) (g :: gs) fun t => face t = f :=
  expectOr h

theorem budget_of_faces {c : Cursor} (hc : c.faces = fs) : c.budget = fs.length + 1 := by
  rw [← hc]
  simp [Cursor.faces, Cursor.budget]

theorem collect {step : Parser (Option α)} {P : List α → Prop}
    (h : ∀ m, fs.length < m → Takes (collectUpTo step m) fs gs P) :
    Takes (collect step) fs gs P := by
  refine get.bind fun c hc => h _ ?_
  rw [budget_of_faces hc]
  exact Nat.lt_succ_self _

theorem commaList {done : Parser Bool} {item : Parser α} {P : List α → Prop}
    (h : ∀ m, fs.length < m → Takes (commaListUpTo done item m) fs gs P) :
    Takes (commaList done item) fs gs P := by
  refine get.bind fun c hc => h _ ?_
  rw [budget_of_faces hc]
  exact Nat.lt_succ_self _

theorem mkExpr (form : ExprForm Expr) (span : Span) :
    Takes (mkExpr form span) fs fs fun e => e.form = form := by
  intro c hc
  exact ⟨⟨c.nextId, form, span⟩, { c with nextId := c.nextId + 1 }, rfl, hc, rfl⟩

theorem exprFrom (place : Position) (form : ExprForm Expr) :
    Takes (exprFrom place form) fs fs fun e => e.form = form :=
  get.bind fun _ _ => mkExpr form _

theorem exprAcross (left right : Expr) (form : ExprForm Expr) :
    Takes (exprAcross left right form) fs fs fun e => e.form = form :=
  mkExpr form _

end Takes

end Credence.Grammar

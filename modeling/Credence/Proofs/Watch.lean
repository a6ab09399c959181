import Credence.Proofs.Balance
import Credence.Proofs.Reached

namespace Credence

open Check

/-- What a run has to do at a time. -/
inductive Task where
  | statement (s : Stmt)
  | expression (e : Expr)
  | call (id : FunctionId) (receiver : Option Ty) (args : CallArgs)

inductive Moment where
  | enters (task : Task)
  | leaves (task : Task)

namespace CheckM

variable {α : Type} {ok : Moment → Session → Bool} {u : Session} {c : Context} {s : Session}

def stopUnless (test : Session → Bool) (u : Session) : CheckM Unit := do
  if !test (← get) then
    set u
    throw .exhausted

/-- A task that is interrupted if the session fails a test where it is begun or ended. -/
def watched (ok : Moment → Session → Bool) (u : Session) (task : Task) (x : CheckM α) : CheckM α := do
  stopUnless (ok (.enters task)) u
  ensuring x (stopUnless (ok (.leaves task)) u)

theorem outcome_stopUnless {test : Session → Bool} (h : test s = true) :
    (stopUnless test u).outcome c s = (.ok ⟨⟩, s) := by
  simp [stopUnless, h]

theorem outcome_watched_stop {task : Task} {x : CheckM α} (h : ok (.enters task) s = false) :
    (watched ok u task x).outcome c s = (.error .exhausted, u) := by
  simp [watched, stopUnless, h]

theorem outcome_watched {task : Task} {x : CheckM α} (hs : ok (.enters task) s = true)
    (ht : ok (.leaves task) (x.outcome c s).2 = true) :
    (watched ok u task x).outcome c s = x.outcome c s := by
  rw [watched, outcome_bind, outcome_stopUnless hs, andThen_ok, outcome_ensuring,
    outcome_stopUnless ht, andThen_ok]
  rcases x.outcome c s with ⟨_ | _, t⟩ <;> rfl

end CheckM

/-- The checks that go at most as deep as the fuel, interrupted wherever a task is begun or ended in a
session that fails a test. -/
def Check.watchedUpTo (ok : Moment → Session → Bool) (u : Session) : Nat → Inner
  | 0 => innerUpTo 0
  | n + 1 =>
    { expr := fun e => CheckM.watched ok u (.expression e) (exprOver (watchedUpTo ok u n) e)
      block := blockWith fun s =>
        CheckM.watched ok u (.statement s) (checkStmt (watchedUpTo ok u n) s)
      call := fun id receiver args =>
        CheckM.watched ok u (.call id receiver args) (callOver (watchedUpTo ok u n) id receiver args) }

namespace Discipline

variable {α : Type} {D : Discipline} {c : Context} {ok : Moment → Session → Bool} {u : Session}

theorem Holds.watched {x y : CheckM α} (h : D.Holds c x y) (task : Task)
    (hok : ∀ m s, D.inv s → ok m s = true) : D.Holds c x (CheckM.watched ok u task y) := by
  intro s hs
  have hends := h s hs
  have hsame : (CheckM.watched ok u task y).outcome c s = y.outcome c s :=
    CheckM.outcome_watched (hok _ s hs) (hok _ _ (hends.same ▸ hends.moves.1))
  exact { hends with same := hends.same.trans hsame.symm }

theorem Level.watched {n : Nat}
    (L : D.Level c (fun _ _ _ => True) (fun _ => True) (fun _ => True) (innerUpTo n)
      (watchedUpTo ok u n))
    (hok : ∀ m s, D.inv s → ok m s = true)
    (hcall : ∀ id receiver args, D.Holds c (callOver (innerUpTo n) id receiver args)
      (callOver (watchedUpTo ok u n) id receiver args)) :
    D.Level c (fun _ _ _ => True) (fun _ => True) (fun _ => True) (innerUpTo (n + 1))
      (watchedUpTo ok u (n + 1)) where
  toLawful := L.toLawful
  expr _ := (L.exprOver ⟨fun _ _ => trivial, fun _ _ _ => trivial⟩).watched _ hok
  block _ := L.blockWith fun _ _ => (L.checkStmt ⟨fun _ _ => trivial, fun _ _ => trivial,
    fun _ _ => trivial, fun _ _ => trivial, fun _ _ => trivial⟩).watched _ hok
  call id receiver args := (hcall id receiver args).watched _ hok
  children _ _ := trivial

end Discipline

namespace Job

variable (job : Job)

def watched (ok : Moment → Session → Bool) (u : Session) : Except Stop Unit × Session :=
  ((watchedUpTo ok u job.fuel).block job.module.body).outcome job.context job.start.2

open Classical in
/-- A property holds at each moment of a run: no interruption where it fails would make a difference. -/
def Always (P : Moment → Session → Prop) : Prop :=
  ∀ u, job.watched (fun m s => decide (P m s)) u =
    ((innerUpTo job.fuel).block job.module.body).outcome job.context job.start.2

open Classical in
/-- A test that makes a difference fails at some moment. -/
theorem not_always_of_watched {P : Moment → Session → Prop} {ok : Moment → Session → Bool}
    (hok : ∀ m s, ok m s = true ↔ P m s) {u : Session}
    (hne : job.watched ok u ≠
      ((innerUpTo job.fuel).block job.module.body).outcome job.context job.start.2) :
    ¬job.Always P := by
  intro h
  have htest : (fun m s => decide (P m s)) = ok := by
    funext m s
    exact Bool.eq_iff_iff.2 (decide_eq_true_iff.trans (hok m s).symm)
  exact hne (htest ▸ h u)

end Job

end Credence

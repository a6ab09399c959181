import Credence.Check.Run
import Credence.Proofs.ParallelExpr

namespace Credence

open Check
open CheckM (outcome_bind)

namespace Pairing

variable {P : Pairing} {s : Stmt} {body : List Stmt}

def AdmitsBody (P : Pairing) (body : List Stmt) : Prop :=
  ∀ n ∈ bodyNodes body, P.Admits n

structure AdmitsStmt (P : Pairing) (s : Stmt) : Prop where
  self : P.Admits (.stmt s)
  expressions : ∀ e ∈ s.form.expressions, P.AdmitsExpr e
  blocks : ∀ b ∈ s.form.blocks, P.AdmitsBody b

theorem AdmitsBody.stmt (h : P.AdmitsBody body) (hs : s ∈ body) : P.AdmitsStmt s := by
  induction body with
  | nil => exact absurd hs List.not_mem_nil
  | cons first rest ih =>
    rcases List.mem_cons.1 hs with rfl | hs
    · refine ⟨h _ (mem_bodyNodes_self s rest), fun e he k hk => ?_, fun b hb n hn => ?_⟩
      · exact h _ (mem_bodyNodes_of_expression he hk)
      · exact h n (mem_bodyNodes_of_block hb hn)
    · exact ih (fun n hn => h n (mem_bodyNodes_of_rest hn)) hs

end Pairing

namespace Check.Parallel

open Pairing

variable {c : Context} {P : Pairing} {spine : List Nat}

/-- What is declared has a bearing on what is reported alone. -/
theorem outcome_holdToDeclared (f : FunctionInfo) (t : Ty) (confidence : Float) (s : Session) :
    ∃ hub, (Check.holdToDeclared f t confidence).outcome c s = (.ok ⟨⟩, { s with hub }) := by
  unfold Check.holdToDeclared
  cases f.declared? with
  | none => exact ⟨s.hub, rfl⟩
  | some declared =>
    rw [outcome_bind]
    change ∃ hub, (ite _ _ _ : CheckM PUnit).outcome c s = _
    split
    · exact ⟨_, rfl⟩
    · exact ⟨s.hub, rfl⟩

theorem recordReturn {t : Ty} (ht : t.Closed) (confidence : Float) :
    Parallel c P spine (Check.recordReturn t confidence) (Check.recordReturn t confidence) fun _ => True := by
  refine .get_bind fun s s' hst => ?_
  have hframes := hst.frames
  generalize s.frames = frames at hframes
  generalize s'.frames = frames' at hframes
  cases hframes with
  | head returned yielded =>
    refine getArena_bind (Parallel.bind (Q := fun _ => True) (fun s s' hst => ?_) fun _ _ => .modify fun s s' hst => ?_)
    · obtain ⟨hub, hs⟩ := outcome_holdToDeclared (c := c) (P.left.arena.functionAt _) t confidence s
      obtain ⟨hub', hs'⟩ := outcome_holdToDeclared (c := c) (P.right.arena.functionAt _) t confidence s'
      rw [hs, hs']
      exact .ok trivial { hst with }
    · have hframes := hst.frames
      generalize hs : s.frames = frames at hframes
      generalize hs' : s'.frames = frames' at hframes
      cases hframes with
      | head returned yielded =>
        exact { hst with
          frames := .head (List.forall_mem_append.2 ⟨returned, List.forall_mem_singleton.2 ht⟩) yielded }

end Check.Parallel

namespace Check.Inside

open Parallel

variable {c : Context} {P : Pairing} {spine : List Nat} {inner other : Inner} (F : Inside c P inner other)
include F

theorem checkElse {body : List Stmt} (h : P.AdmitsBody body) :
    Parallel c P spine (Check.checkElse inner body) (Check.checkElse other body) fun _ => True := by
  unfold Check.checkElse
  split
  · exact inBranch fun _ => F.block h
  · exact .pure trivial

theorem checkReturn {value : Option Expr} (h : ∀ e ∈ value.toList, P.AdmitsExpr e) :
    Parallel c P spine (Check.checkReturn inner value) (Check.checkReturn other value) fun _ => True := by
  cases value with
  | none => exact .read_bind (Parallel.recordReturn (.prim _) _)
  | some value =>
    exact (F.expr (h value List.mem_cons_self)).bind fun t ht => (confidenceOf value).bind fun confidence _ =>
      Parallel.recordReturn ht confidence

theorem caughtType {type : Option Expr} (h : ∀ e ∈ type, P.AdmitsExpr e) :
    Parallel c P spine (Check.caughtType inner type) (Check.caughtType other type) Ty.Closed := by
  cases type with
  | none => exact .pure .any
  | some e =>
    refine (F.expr (h e rfl)).bind fun t ht => (Parallel.instanceType? ht).bind fun found hfound => .pure ?_
    cases found with
    | none => exact .any
    | some caught => exact hfound caught rfl

theorem checkHandler {handler : Handler Stmt} (hname : handler.name = none)
    (htype : ∀ e ∈ handler.type, P.AdmitsExpr e) (hbody : P.AdmitsBody handler.body) :
    Parallel c P spine (Check.checkHandler inner handler) (Check.checkHandler other handler) fun _ => True := by
  refine (modifyHub _ _).bind fun _ _ => (F.caughtType htype).bind fun caught hcaught => ?_
  rw [hname]
  exact F.block hbody

theorem checkTry {body : List Stmt} {handlers : List (Handler Stmt)} {orelse finalbody : List Stmt}
    (hnames : handlers.all (·.name.isNone) = true)
    (htypes : ∀ handler ∈ handlers, ∀ e ∈ handler.type, P.AdmitsExpr e) (hbody : P.AdmitsBody body)
    (hbodies : ∀ handler ∈ handlers, P.AdmitsBody handler.body) (horelse : P.AdmitsBody orelse)
    (hfinal : P.AdmitsBody finalbody) :
    Parallel c P spine (Check.checkTry inner body handlers orelse finalbody)
      (Check.checkTry other body handlers orelse finalbody) fun _ => True := by
  refine (suppressing (F.block hbody)).bind fun _ _ => ?_
  refine Parallel.bind (.forEach fun handler hmem => ?_) fun _ _ => ?_
  · have hname : handler.name = none := Option.isNone_iff_eq_none.1 (List.all_eq_true.1 hnames handler hmem)
    exact F.checkHandler hname (htypes handler hmem) (hbodies handler hmem)
  · exact (F.block horelse).bind fun _ _ => F.block hfinal

omit F in
theorem enteredType {context : Ty} (hcontext : context.Closed) :
    Parallel c P spine (Check.enteredType inner context) (Check.enteredType other context) Ty.Closed := by
  cases context with
  | object id =>
    cases hcontext
    contradiction
  | _ => exact .pure hcontext

theorem checkWith {items : List WithItem} {body : List Stmt} (hcontexts : ∀ item ∈ items, P.AdmitsExpr item.context)
    (hvars : ∀ item ∈ items, ∀ vars ∈ item.vars, P.AdmitsExpr vars ∧ ∀ x ∈ vars.boundNames, P.own x)
    (hbody : P.AdmitsBody body) :
    Parallel c P spine (Check.checkWith inner items body) (Check.checkWith other items body) fun _ => True := by
  refine Parallel.bind (.forIn fun item hitem => ?_) fun _ _ => suppressing (F.block hbody)
  refine (F.expr (hcontexts item hitem)).bind fun context hcontext => ?_
  cases hitemVars : item.vars with
  | none => exact .pure trivial
  | some vars =>
    obtain ⟨hadmits, hown⟩ := hvars item hitem vars hitemVars
    refine (enteredType hcontext).bind fun entered hentered => ?_
    exact (confidenceOf item.context).bind fun confidence _ =>
      (F.assign hadmits hown hentered confidence _).andPure trivial

theorem checkStmt {s : Stmt} (h : P.AdmitsStmt s) :
    Parallel c P spine (Check.checkStmt inner s) (Check.checkStmt other s) fun _ => True := by
  obtain ⟨⟨hplain, hown, -⟩, hexprs, hblocks⟩ := h
  replace hown : ∀ x ∈ s.targets.flatMap Expr.boundNames, P.own x := hown
  unfold Stmt.targets at hown
  refine (modifyHub _ _).bind fun _ _ => ?_
  rcases s with ⟨node, form, span⟩
  have bound {targets : List Expr} (hown : ∀ x ∈ targets.flatMap Expr.boundNames, P.own x) (target : Expr)
      (htarget : target ∈ targets) : ∀ x ∈ target.boundNames, P.own x :=
    fun x hx => hown x (List.mem_flatMap.2 ⟨target, htarget, hx⟩)
  cases form with
  | functionDef | classDef | importModules | importFrom | globalNames | nonlocalNames | ascribe | delete =>
    cases hplain
  | expr value => exact (F.expr (hexprs value List.mem_cons_self)).andPure trivial
  | assign targets value =>
    refine (F.expr (hexprs value (by simp [StmtForm.expressions]))).bind fun t ht => ?_
    refine (confidenceOf value).bind fun confidence _ => Parallel.andPure (.forEach fun target htarget => ?_) trivial
    exact F.assign (hexprs target (by simp [StmtForm.expressions, htarget])) (bound hown target htarget) ht confidence _
  | augAssign target op value =>
    have htarget := hexprs target (by simp [StmtForm.expressions])
    refine (F.expr htarget).bind fun current hcurrent => ?_
    refine (F.expr (hexprs value (by simp [StmtForm.expressions]))).bind fun operand hoperand => ?_
    refine (confidenceOf target).bind fun p _ => (confidenceOf value).bind fun q _ => ?_
    refine (binaryResult op hcurrent hoperand _).bind fun result hresult => ?_
    exact F.assign htarget (bound hown target List.mem_cons_self) hresult _ _
  | ret value => exact F.checkReturn hexprs
  | pass | brk | cont => exact .pure trivial
  | ifElse test body orelse | whileLoop test body orelse =>
    refine (inBranch fun d => ?_).bind fun _ _ => F.checkElse (hblocks orelse (by simp [StmtForm.blocks]))
    refine (F.checkCondition (hexprs test List.mem_cons_self)).bind fun _ _ => ?_
    exact F.block (hblocks body (by simp [StmtForm.blocks]))
  | forLoop target iter body orelse isAsync =>
    refine (F.expr (hexprs iter (by simp [StmtForm.expressions]))).bind fun iterable hiterable => ?_
    refine (Parallel.iterationType inner other hiterable).bind fun element helement => ?_
    refine (confidenceOf iter).bind fun confidence _ => ?_
    refine (inBranch fun d => ?_).bind fun _ _ => F.checkElse (hblocks orelse (by simp [StmtForm.blocks]))
    refine (F.assign (hexprs target List.mem_cons_self) (bound hown target List.mem_cons_self) helement
      confidence _).bind fun _ _ => ?_
    exact F.block (hblocks body (by simp [StmtForm.blocks]))
  | tryExcept body handlers orelse finalbody =>
    refine F.checkTry hplain (fun handler hmem e he => hexprs e ?_) (hblocks body ?_)
      (fun handler hmem => hblocks handler.body ?_) (hblocks orelse ?_) (hblocks finalbody ?_)
    · exact List.mem_filterMap.2 ⟨handler, hmem, he⟩
    all_goals simp [StmtForm.blocks]
    exact .inr (.inl ⟨handler, hmem, rfl⟩)
  | withItems items body isAsync =>
    refine F.checkWith (fun item hitem => hexprs _ ?_) (fun item hitem vars hvars => ⟨hexprs _ ?_, ?_⟩)
      (hblocks body (by simp [StmtForm.blocks]))
    · exact List.mem_flatMap.2 ⟨item, hitem, List.mem_cons_self⟩
    · exact List.mem_flatMap.2 ⟨item, hitem, List.mem_cons_of_mem _ (Option.mem_toList.2 hvars)⟩
    · exact bound hown vars (List.mem_filterMap.2 ⟨item, hitem, hvars⟩)
  | assert test message =>
    refine (F.checkCondition (hexprs test List.mem_cons_self)).bind fun _ _ => ?_
    cases message with
    | none => exact .pure trivial
    | some e =>
      rw [Option.forIn_some, Option.forIn_some]
      refine Parallel.andPure (Q := fun _ => True) (Parallel.bind (Q := fun _ => True) ?_ fun step _ => ?_) trivial
      · exact (F.expr (hexprs e (by simp [StmtForm.expressions]))).andPure trivial
      · exact .pure trivial
  | raise exc cause =>
    exact Parallel.andPure (.forIn fun e he => (F.expr (hexprs e he)).andPure trivial) trivial

theorem blockOver {body : List Stmt} (h : P.AdmitsBody body) :
    Parallel c P spine (Check.blockOver inner body) (Check.blockOver other body) fun _ => True := by
  refine Parallel.bind (.forIn fun s hs => ?_) fun _ _ => Parallel.flush
  refine attempt_bind (F.checkStmt (h.stmt hs)) (fun _ _ => ?_) (fun f g => ?_) rfl rfl
  · exact .pure trivial
  · exact .get_bind fun s t _ => (warn _ _).andPure trivial

end Check.Inside

theorem Check.inside_innerUpTo {c : Context} {P : Pairing}
    (hints : ∀ span found, c.hints.get? span = some found → found.1.Closed) (m n : Nat) :
    Inside c P (innerUpTo m) (innerUpTo n) := by
  -- By induction on the fuel of one run and then of the other.
  induction m generalizing n with
  | zero => exact ⟨hints, fun _ _ _ _ => .left, fun _ _ _ _ => .left⟩
  | succ m ih =>
    cases n with
    | zero => exact ⟨hints, fun _ _ _ _ => .right, fun _ _ _ _ => .right⟩
    | succ n => exact ⟨hints, fun he => (ih n).exprOver he, fun hb => (ih n).blockOver hb⟩

end Credence

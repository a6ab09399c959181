import Credence.Proofs.Agreement
import Credence.Proofs.Steps

namespace Credence

open Check CheckM

namespace Session

variable (s : Session) (c : Context) (id : FunctionId) (receiver : Option Ty) (args : CallArgs)

def boundArguments : List (String × Ty) × List Finding :=
  (s.arena.functionAt id).bindArguments s.arena (errorProbability c.settings.defaultConfidence) receiver
    args

def callKey : CallKey :=
  ⟨(s.boundArguments c id receiver args).1, (s.arena.functionAt id).capturedView s.scopes⟩

/-- The session in which a call has bound its arguments. -/
def bindingArguments : Session :=
  { s with hub := s.hub.reportAll (s.boundArguments c id receiver args).2 }

/-- A call of a function with a body, of which nothing is remembered. -/
structure Misses : Prop where
  stub : (s.arena.functionAt id).isStub = false
  cached : (s.arena.functionAt id).cached? (s.callKey c id receiver args) = none

/-- A call gives a result without the body: the same, whatever there is inside. -/
def ShortCircuits : Prop :=
  ∃ result, ∀ inner, (callOver inner id receiver args).outcome c s =
    (.ok result, s.bindingArguments c id receiver args)

/-- A call checks the body, with its key in the guard, and remembers the result. -/
def Evaluates : Prop :=
  ∃ guard, s.guard.enter? (s.arena.functionAt id).guardKey = some guard ∧
    ∀ inner, (callOver inner id receiver args).outcome c s =
      andThen ((runBody inner id (s.arena.functionAt id) (s.boundArguments c id receiver args).1).outcome c
        { s.bindingArguments c id receiver args with guard }) c fun inferred => do
          let result := (s.arena.functionAt id).declared?.getD inferred
          modifyArena (·.modifyFunction id (·.remember (s.callKey c id receiver args) result))
          return result

/-- A body with the key of the function is being checked. -/
def KeyOpen : Prop :=
  ∃ frame ∈ s.frames,
    (s.arena.functionAt frame.function).guardKey = (s.arena.functionAt id).guardKey

variable {s c id receiver args}

theorem Misses.outcome (h : s.Misses c id receiver args) (inner : Inner) :
    (callOver inner id receiver args).outcome c s =
      (resultOver inner id (s.arena.functionAt id) (s.boundArguments c id receiver args).1).outcome c
        (s.bindingArguments c id receiver args) := by
  simp [callOver, getArena, defaultProbability, reportAll, modifyHub, h.stub, boundArguments,
    bindingArguments]

theorem exists_outcome_recursiveResult (f : FunctionInfo) :
    ∃ result, (recursiveResult id f).outcome c s = (.ok result, s) := by
  unfold recursiveResult
  split
  · exact ⟨_, rfl⟩
  · rw [outcome_bind, outcome_get, andThen_ok]
    simp only
    split <;> exact ⟨_, rfl⟩

theorem Misses.shortCircuits (h : s.Misses c id receiver args)
    (hbusy : (s.arena.functionAt id).guardKey ∈ s.guard.busy) : s.ShortCircuits c id receiver args := by
  let t := s.bindingArguments c id receiver args
  obtain ⟨result, hresult⟩ : ∃ result,
      (recursiveResult id (s.arena.functionAt id)).outcome c t = (.ok result, t) :=
    exists_outcome_recursiveResult _
  have hguard : t.guard.enter? (s.arena.functionAt id).guardKey = none := Guard.enter?_eq_none.2 hbusy
  exact ⟨result, fun inner =>
    (h.outcome inner).trans ((outcome_resultOver_busy (s := t) h.cached hguard).trans hresult)⟩

theorem Misses.evaluates (h : s.Misses c id receiver args)
    (hfree : (s.arena.functionAt id).guardKey ∉ s.guard.busy) : s.Evaluates c id receiver args := by
  let t := s.bindingArguments c id receiver args
  let guard : Guard := ⟨(s.arena.functionAt id).guardKey :: t.guard.busy, t.guard.depth + 1⟩
  have hguard : t.guard.enter? (s.arena.functionAt id).guardKey = some guard :=
    Guard.enter?_eq_some.2 ⟨hfree, rfl⟩
  exact ⟨guard, hguard, fun inner =>
    (h.outcome inner).trans (outcome_resultOver_free (s := t) h.cached hguard)⟩

theorem error_runBody_zero (f : FunctionInfo) (arguments : List (String × Ty)) :
    ∃ t, (runBody (innerUpTo 0) id f arguments).outcome c s = (.error .exhausted, t) := by
  have hbody : (evaluateBody (innerUpTo 0) f.body).outcome c (s.entering id f arguments) =
      (.error .exhausted, s.entering id f arguments) := by
    cases f.body <;> rfl
  rw [outcome_runBody, hbody]
  exact ⟨_, rfl⟩

theorem Misses.shortCircuits_iff (h : s.Misses c id receiver args) :
    s.ShortCircuits c id receiver args ↔ (s.arena.functionAt id).guardKey ∈ s.guard.busy := by
  refine ⟨fun ⟨result, hresult⟩ => ?_, h.shortCircuits⟩
  by_contra hfree
  obtain ⟨guard, -, houtcome⟩ := h.evaluates hfree
  let started := { s.bindingArguments c id receiver args with guard }
  obtain ⟨t, ht⟩ : ∃ t, (runBody (innerUpTo 0) id (s.arena.functionAt id)
      (s.boundArguments c id receiver args).1).outcome c started = (.error .exhausted, t) :=
    error_runBody_zero _ _
  have herror := (hresult (innerUpTo 0)).symm.trans (houtcome (innerUpTo 0))
  rw [ht] at herror
  cases congrArg Prod.fst herror

theorem GuardAgrees.mem_busy_iff (h : s.GuardAgrees) :
    (s.arena.functionAt id).guardKey ∈ s.guard.busy ↔ s.KeyOpen id := by
  rw [← List.contains_iff_mem]
  exact (h.busy _).trans List.mem_map

end Session

namespace Job

/-- At each call of a run of which nothing is known, the call is resolved without the body exactly if a body
with the key of the function is being checked, and otherwise the body is checked. -/
theorem short_circuits_where_key_open (job : Job) :
    job.Always fun m t => ∀ id receiver args, m = .enters (.call id receiver args) →
      t.Misses job.context id receiver args →
        (t.ShortCircuits job.context id receiver args ↔ t.KeyOpen id) ∧
          (¬t.KeyOpen id → t.Evaluates job.context id receiver args) := by
  refine job.always_of_guardAgrees fun m t ht id receiver args _ hmiss => ?_
  have hopen : _ ↔ t.KeyOpen id := ht.mem_busy_iff
  exact ⟨hmiss.shortCircuits_iff.trans hopen, fun hclosed => hmiss.evaluates (mt hopen.1 hclosed)⟩

section Lambdas

def firstLine : Span :=
  ⟨⟨0, 1, 0, "main.py"⟩, ⟨0, 1, 0, "main.py"⟩⟩

def innerLambda : Expr :=
  ⟨4, .lambda {} ⟨5, .number (.int 1), firstLine⟩, firstLine⟩

def innerCall : Expr :=
  ⟨3, .call innerLambda [] [], firstLine⟩

def outerLambda : Expr :=
  ⟨2, .lambda {} innerCall, firstLine⟩

def outerCall : Expr :=
  ⟨1, .call outerLambda [] [], firstLine⟩

/-- The statement `a = (lambda: (lambda: 1)())()`. -/
def nestedCall : Stmt :=
  ⟨0, .assign [⟨6, .name "a", firstLine⟩] outerCall, firstLine⟩

def nestedLambdas : Job :=
  { empty with module := { body := [nestedCall], file := "main.py", span := firstLine }, path := "main.py" }

/-- The test whether a call that is resolved without its body is one of a function whose body is being
checked. -/
def recursionOnly (c : Context) : Moment → Session → Bool
  | .enters (.call id receiver args), t =>
    (t.arena.functionAt id).isStub ||
      ((t.arena.functionAt id).cached? (t.callKey c id receiver args)).isSome ||
      !t.guard.isBusy (t.arena.functionAt id).guardKey || t.frames.any (·.function == id)
  | _, _ => true

theorem recursionOnly_iff {c : Context} (m : Moment) (t : Session) :
    recursionOnly c m t = true ↔ ∀ id receiver args, m = .enters (.call id receiver args) →
      t.Misses c id receiver args → t.ShortCircuits c id receiver args →
        ∃ frame ∈ t.frames, frame.function = id := by
  constructor
  · rintro htest id receiver args rfl hmiss hshort
    have hbusy : t.guard.isBusy (t.arena.functionAt id).guardKey = true :=
      List.contains_iff_mem.2 (hmiss.shortCircuits_iff.1 hshort)
    simpa [recursionOnly, hmiss.stub, hmiss.cached, hbusy] using htest
  · intro h
    by_contra hfails
    unfold recursionOnly at hfails
    split at hfails
    · rename_i id receiver args
      simp only [Bool.not_eq_true, Bool.or_eq_false_iff, Bool.not_eq_false', Option.isSome_eq_false_iff,
        Option.isNone_iff_eq_none] at hfails
      obtain ⟨⟨⟨hstub, hcached⟩, hbusy⟩, hframes⟩ := hfails
      have hmiss : t.Misses c id receiver args := ⟨hstub, hcached⟩
      obtain ⟨frame, hframe, hid⟩ :=
        h id receiver args rfl hmiss (hmiss.shortCircuits (List.contains_iff_mem.1 hbusy))
      simpa [hid] using List.any_eq_false.1 hframes frame hframe
    · exact hfails rfl

variable {c : Context} {s u : Session} (k : Nat)

theorem guardKey_of_firstLine {f : FunctionInfo} (hfile : f.file = "main.py") (hline : f.line = 1)
    (hname : f.name = "<lambda>") : f.guardKey = "main.py:1:<lambda>" := by
  rw [FunctionInfo.guardKey, hfile, hline, hname]
  decide

theorem outcome_expr_watched (e : Expr) :
    ((watchedUpTo (recursionOnly c) u (k + 1)).expr e).outcome c s =
      (exprOver (watchedUpTo (recursionOnly c) u k) e).outcome c s :=
  outcome_watched rfl rfl

theorem outcome_lambda (hhints : c.hints.entries = []) {node : Nat} (body : Expr)
    (hmemo : s.memo.entries[("main.py", node)]? = none) :
    ((watchedUpTo (recursionOnly c) u (k + 1)).expr ⟨node, .lambda {} body, firstLine⟩).outcome c s =
      (.ok (.function ⟨s.arena.functions.size⟩), keeping
        { s with arena := (s.arena.addFunction (lambdaIn s 1 body)).2 }
        ⟨node, .lambda {} body, firstLine⟩ (.function ⟨s.arena.functions.size⟩)) := by
  rw [outcome_expr_watched]
  exact outcome_exprOver_new hmemo hhints outcome_evaluate_lambda

theorem outcome_innerCall (hhints : c.hints.entries = [])
    (hmemo : ∀ n : Nat, n ≠ 2 → s.memo.entries[("main.py", n)]? = none)
    (hfile : s.hub.cursor.file = "main.py")
    (hbusy : s.guard.isBusy "main.py:1:<lambda>" = true)
    (hframes : ∀ frame ∈ s.frames, frame.function ≠ ⟨s.arena.functions.size⟩) :
    ((watchedUpTo (recursionOnly c) u (k + 2)).expr innerCall).outcome c s = (.error .exhausted, u) := by
  rw [outcome_expr_watched]
  refine outcome_exprOver_error (hmemo 3 (by decide)) ?_
  have hlambda := outcome_lambda (u := u) k hhints ⟨5, .number (.int 1), firstLine⟩ (hmemo 4 (by decide))
  refine (outcome_evaluate_plainCall (by decide) (by simp) hlambda).trans ?_
  set f := lambdaIn s 1 ⟨5, .number (.int 1), firstLine⟩
  have hf : (s.arena.addFunction f).2.functionAt ⟨s.arena.functions.size⟩ = f := getD_push_size _ _
  have hkey : f.guardKey = "main.py:1:<lambda>" := guardKey_of_firstLine hfile rfl rfl
  rw [outcome_callType_function hf rfl]
  refine outcome_watched_stop ?_
  have hcached (key : CallKey) : f.cached? key = none := cached?_of_calls rfl
  have hframe : s.frames.any (·.function == ⟨s.arena.functions.size⟩) = false := by
    simpa using hframes
  simp only [recursionOnly, keeping, hf, hcached, hkey, hbusy, hframe]
  rfl

theorem outcome_outerCall (hhints : c.hints.entries = [])
    (hmemo : ∀ n : Nat, s.memo.entries[("main.py", n)]? = none) (hfile : s.hub.cursor.file = "main.py")
    (hbusy : s.guard.busy = []) (hframes : s.frames = []) :
    ∃ t, ((watchedUpTo (recursionOnly c) u (k + 4)).expr outerCall).outcome c s = (.error .exhausted, t) ∧
      t.events = u.events := by
  let f := lambdaIn s 1 innerCall
  let defined : Session := { s with arena := (s.arena.addFunction f).2 }
  let started := keeping defined outerLambda (.function ⟨s.arena.functions.size⟩)
  have hf : started.arena.functionAt ⟨s.arena.functions.size⟩ = f := getD_push_size _ _
  have hkey : f.guardKey = "main.py:1:<lambda>" := guardKey_of_firstLine hfile rfl rfl
  have hguard : started.guard.enter? f.guardKey = some ⟨[f.guardKey], s.guard.depth + 1⟩ := by
    refine Guard.enter?_eq_some.2 ?_
    simp [started, keeping, defined, hbusy]
  let entered := Session.entering { started with guard := ⟨[f.guardKey], s.guard.depth + 1⟩ }
    ⟨s.arena.functions.size⟩ f []
  have hbody : ((watchedUpTo (recursionOnly c) u (k + 2)).expr innerCall).outcome c entered =
      (.error .exhausted, u) := by
    refine outcome_innerCall k hhints (fun n hn => ?_) hfile ?_ ?_
    · change (Std.TreeMap.insert _ ("main.py", 2) _)[_]? = none
      rw [Memo.getElem?_insert, if_neg (by simpa using Ne.symm hn)]
      exact hmemo n
    · simp [entered, Session.entering, Guard.isBusy, hkey]
    · simp [entered, Session.entering, started, keeping, defined, hframes, Arena.addFunction]
  have hcall : ((watchedUpTo (recursionOnly c) u (k + 3)).call ⟨s.arena.functions.size⟩ none {}).outcome c
      started = (.error .exhausted, Session.leaving started u f) := by
    refine (outcome_watched ?_ rfl).trans ?_
    · simp [recursionOnly, Guard.isBusy, started, keeping, defined, hbusy]
    rw [outcome_callOver hf rfl rfl]
    exact outcome_resultOver_error rfl hguard (outcome_runBody_lambda_error rfl hbody)
  refine ⟨started.leaving u f, ?_, rfl⟩
  rw [outcome_expr_watched]
  refine outcome_exprOver_error (hmemo 1) ?_
  have hlambda := outcome_lambda (u := u) (k + 2) hhints innerCall (hmemo 2)
  refine (outcome_evaluate_plainCall (by decide) (by simp) hlambda).trans ?_
  exact (outcome_callType_function hf rfl _).trans hcall

/-- A call that is resolved without its body need not be one of a function whose body is being checked. -/
theorem not_always_recursion : ¬nestedLambdas.Always fun m t => ∀ id receiver args,
    m = .enters (.call id receiver args) → t.Misses nestedLambdas.context id receiver args →
      t.ShortCircuits nestedLambdas.context id receiver args → ∃ frame ∈ t.frames, frame.function = id := by
  let c := nestedLambdas.context
  let plain := ((innerUpTo nestedLambdas.fuel).block [nestedCall]).outcome c nestedLambdas.start.2
  let u : Session := { plain.2 with events := plain.2.events ++ [.warning ""] }
  obtain ⟨k, hfuel⟩ : ∃ k, nestedLambdas.fuel = k + 5 := ⟨_, rfl⟩
  let s : Session := { nestedLambdas.start.2 with hub := nestedLambdas.start.2.hub.setLine nestedCall.line }
  obtain ⟨t, hcall, hevents⟩ := outcome_outerCall (c := c) (s := s) (u := u) k rfl
    (fun _ => Std.TreeMap.getElem?_emptyc) rfl rfl rfl
  have hstmt : (checkStmt (watchedUpTo (recursionOnly c) u (k + 4)) nestedCall).outcome c
      nestedLambdas.start.2 = (.error .exhausted, t) := by
    rw [checkStmt.eq_def, nestedCall, modifyHub, outcome_bind, outcome_modify, andThen_ok, outcome_bind]
    exact congrArg (andThen · c _) hcall
  have hwatched : nestedLambdas.watched (recursionOnly c) u = (.error .exhausted, t) := by
    rw [watched, hfuel]
    exact outcome_blockWith_exhausted ((outcome_watched rfl rfl).trans hstmt)
  refine nestedLambdas.not_always_of_watched recursionOnly_iff (u := u) fun hsame => ?_
  have hsession : t = plain.2 := congrArg Prod.snd (hwatched.symm.trans hsame)
  simp [hsession, u] at hevents

end Lambdas

end Job

end Credence

import Credence.Proofs.Steps
import Credence.Proofs.Termination

namespace Credence

open Check CheckM Discipline

def Arena.forgetCalls (a : Arena) : Arena :=
  { a with functions := a.functions.map fun f => { f with calls := [] } }

theorem Arena.functionAt_forgetCalls (a : Arena) (id : FunctionId) :
    a.forgetCalls.functionAt id = { a.functionAt id with calls := [] } := by
  simp only [functionAt, forgetCalls, Array.getD_eq_getD_getElem?, Array.getElem?_map]
  cases a.functions[id.val]? <;> rfl

namespace Session

/-- What the body of a function gives for some arguments, if no calls are remembered. The function is
entered as by a call, unless it has been entered already. -/
def reevaluated (s : Session) (c : Context) (n : Nat) (id : FunctionId)
    (arguments : List (String × Ty)) : Except Stop Ty :=
  let f := s.arena.functionAt id
  let entered := (s.guard.enter? f.guardKey).getD s.guard
  let started := { s with arena := s.arena.forgetCalls, guard := entered }
  ((runBody (innerUpTo n) id f arguments).outcome c started).1.map (f.declared?.getD ·)

/-- Whatever is remembered of the calls of a function is what its body gives, if it is let go deep enough. -/
def Fresh (s : Session) (c : Context) (id : FunctionId) : Prop :=
  ∀ arguments known, (s.arena.functionAt id).cached?
      ⟨arguments, (s.arena.functionAt id).capturedView s.scopes⟩ = some known →
    ∃ m, ∀ n, m ≤ n → ∃ result, s.reevaluated c n id arguments = .ok result ∧ known.alike result = true

end Session

namespace FunctionInfo

/-- A function apart from what is remembered of its calls. -/
def bare (f : FunctionInfo) : FunctionInfo :=
  { f with calls := [], lastReturn := none }

/-- What is remembered of the calls of a function is what it declares to return, if it does. -/
def Truthful (f : FunctionInfo) : Prop :=
  ∀ declared ∈ f.declared?, ∀ call ∈ f.calls, call.2 = declared

variable {f g : FunctionInfo} {key : CallKey} {declared known result : Ty}

theorem declared?_eq_of_bare (h : f.bare = g.bare) : f.declared? = g.declared? := by
  have hbare : f.bare.declared? = g.bare.declared? := congrArg declared? h
  exact hbare

theorem truthful_of_calls (h : f.calls = []) : f.Truthful :=
  fun _ _ _ hcall => absurd hcall (h ▸ List.not_mem_nil)

theorem Truthful.remember (h : f.Truthful) (hresult : ∀ declared ∈ f.declared?, result = declared) :
    (f.remember key result).Truthful := by
  intro declared hdeclared call hcall
  rcases List.mem_append.1 hcall with hcall | hcall
  · exact h declared hdeclared call (List.mem_filter.1 hcall).1
  · rw [List.mem_singleton.1 hcall]
    exact hresult declared hdeclared

theorem Truthful.cached? (h : f.Truthful) (hdeclared : f.declared? = some declared)
    (hknown : f.cached? key = some known) : known = declared := by
  obtain ⟨call, hfind, rfl⟩ := Option.map_eq_some_iff.1 hknown
  exact h declared hdeclared call (List.mem_of_find?_eq_some hfind)

end FunctionInfo

/-- Terms on which the functions from before stay what they were. -/
def Unaltered (before : Array FunctionInfo) : Terms := fun functions _ _ =>
  ∀ i < before.size, i < functions.size ∧
    (functions.getD i default).bare = (before.getD i default).bare

theorem fair_unaltered (before : Array FunctionInfo) (c : Context) :
    (Unaltered before).Fair (fun _ => True) c fun _ _ _ => True where
  fault _ := trivial
  define h _ _ i hi := by
    obtain ⟨hlt, hsame⟩ := h i hi
    refine ⟨?_, by rwa [getD_push_of_lt hlt]⟩
    rw [Array.size_push]
    exact Nat.lt_succ_of_lt hlt
  takeIn _ h htaken i hi := by
    obtain ⟨hlt, hsame⟩ := h i hi
    exact ⟨Nat.lt_of_lt_of_le hlt htaken.size, (congrArg FunctionInfo.bare (htaken.old ⟨i⟩ hlt)).trans hsame⟩
  grounded _ := .inr trivial

theorem level_unaltered (before : Array FunctionInfo) (c : Context) (n : Nat) :
    (balance (Unaltered before) fun _ => True).Level c (fun _ _ _ => True) (fun _ => True)
      (fun _ => True) (innerUpTo n) (innerUpTo n) := by
  refine level_of_loose (fair_unaltered before c) (fun _ _ h => h) (fun id key result h i hi => ?_) n
  obtain ⟨hlt, hsame⟩ := h i hi
  exact ⟨by rwa [Array.size_modify],
    getD_modify_rec (p := fun f : FunctionInfo => f.bare = (before.getD i default).bare) hsame fun _ => hsame⟩

theorem arena_evaluateBody_default (n : Nat) (c : Context) (s : Session) :
    ((evaluateBody (innerUpTo n) (default : FunctionInfo).body).outcome c s).2.arena = s.arena := by
  cases n with
  | zero => rfl
  | succ n =>
    have hvalue (u : Session) : (evaluate (innerUpTo n) default).outcome c u = (.ok .any, u) := rfl
    change ((some <$> exprOver (innerUpTo n) default).outcome c s).2.arena = s.arena
    rw [exprOver]
    simp only [stamp, hint?, outcome_map, outcome_bind, outcome_get, outcome_pure, outcome_modifyGet,
      andThen_ok]
    cases (s.memo.get _ _ _).1 with
    | some known => rfl
    | none =>
      simp only [outcome_bind, hvalue, andThen_ok, outcome_read]
      rfl

theorem bare_runBody {n : Nat} {c : Context} {s t : Session} {guard : Guard} {id : FunctionId}
    {f : FunctionInfo} {arguments : List (String × Ty)} {inferred : Ty}
    (hf : s.arena.functionAt id = f) (hguard : s.guard.enter? f.guardKey = some guard)
    (hrun : (runBody (innerUpTo n) id f arguments).outcome c { s with guard } = (.ok inferred, t)) :
    (t.arena.functionAt id).bare = f.bare := by
  by_cases hid : id.val < s.arena.functions.size
  · have hbody : (balance (Unaltered s.arena.functions) fun _ => True).Holds c
        (evaluateBody (innerUpTo n) f.body) (evaluateBody (innerUpTo n) f.body) := by
      refine (level_unaltered s.arena.functions c n).evaluateBody ?_
      cases f.body <;> trivial
    have hends : (balance (Unaltered s.arena.functions) fun _ => True).Ends c
        (runBody (innerUpTo n) id f arguments) (runBody (innerUpTo n) id f arguments) s { s with guard } :=
      ends_runBody hguard (fun i hi => ⟨hi, rfl⟩) hbody fun _ h => h
    have hmoves := hends.moves
    rw [hrun] at hmoves
    exact (hmoves.1 id.val hid).2.trans (congrArg FunctionInfo.bare hf)
  · have hnone : s.arena.functionAt id = default := getD_of_not_lt hid
    rw [hnone] at hf
    subst hf
    have harena := arena_evaluateBody_default n c (Session.entering { s with guard } id default arguments)
    rw [outcome_runBody] at hrun
    split at hrun
    · rename_i hvalue
      rw [hvalue] at harena
      cases hrun
      exact congrArg (fun a : Arena => (a.functionAt id).bare) harena |>.trans (congrArg _ hnone)
    · cases hrun

namespace Discipline

variable {α : Type} {D : Discipline} {c : Context} {p : Session → Prop} {u : Session}

theorem Holds.interrupted {x y : CheckM α} (h : D.Holds c x y) (hp : ∀ s, D.inv s → ¬p s) :
    D.Holds c x (CheckM.interrupted p u y) := by
  intro s hs
  have hends := h s hs
  have hsame : (CheckM.interrupted p u y).outcome c s = y.outcome c s :=
    outcome_interrupted (hp s hs) (hends.same ▸ hp _ hends.moves.1)
  exact { hends with same := hends.same.trans hsame.symm }

theorem Level.interrupted {N : Sites} {E : Expr → Prop} {B : List Stmt → Prop} {inner other : Inner}
    (L : D.Level c N E B inner other) (hp : ∀ s, D.inv s → ¬p s) :
    D.Level c N E B inner (other.interrupted p u) :=
  { L with
    expr := fun he => (L.expr he).interrupted hp
    block := fun hb => (L.block hb).interrupted hp
    call := fun id receiver args => (L.call id receiver args).interrupted hp }

end Discipline

section Levels

variable {keys : List String} {size : Nat} {c : Context} {p : Session → Prop} {u : Session}

/-- All functions have keys, and what is remembered of the calls of those that declare what they return
is that. -/
structure TrueTerms (keys : List String) (size : Nat) (file : String)
    (functions : Array FunctionInfo) (guard : Guard) (place : String) : Prop where
  covered : CoveredTerms keys size keys.length file functions guard place
  truthful : ∀ i, (functions.getD i default).Truthful

theorem fair_trueTerms (h : CoveredImports keys size c) (file : String) :
    Terms.Fair (TrueTerms keys size file) (fun _ => True) c (Covered keys size file) where
  fault _ := trivial
  define hterms hcalls hsite :=
    { covered := (fair_coveredTerms h keys.length file).define hterms.covered hcalls hsite
      truthful := fun i => getD_push_rec (fun _ => hterms.truthful i) fun _ =>
        FunctionInfo.truthful_of_calls hcalls }
  takeIn hoffers hterms htaken :=
    { covered := (fair_coveredTerms h keys.length file).takeIn hoffers hterms.covered htaken
      truthful := htaken.forall_functions hterms.truthful fun hcopied =>
        FunctionInfo.truthful_of_calls hcopied.calls }
  grounded _ := .inr trivial

theorem CoveredExpr.evaluable_self {file : String} {e : Expr} (h : CoveredExpr keys file size e) :
    Stage.Evaluable (Covered keys size file) (CoveredExpr keys file size) e := by
  obtain ⟨k, rfl⟩ : ∃ k, size = k + 1 :=
    ⟨size - 1, by have := h.weight; have := e.weight_pos; omega⟩
  exact (h.evaluable (Nat.lt_succ_self k)).imp fun _ hk => hk.mono (Nat.le_succ k)

theorem CoveredBlock.checkable_self {file : String} {b : List Stmt} (h : CoveredBlock keys file size b)
    {stmt : Stmt} (hstmt : stmt ∈ b) :
    Stage.Checkable (Covered keys size file) (CoveredExpr keys file size) (CoveredBlock keys file size)
      stmt := by
  obtain ⟨k, rfl⟩ : ∃ k, size = k + 1 := ⟨size - 1, by have := h.weight; omega⟩
  exact (h.checkable (Nat.lt_succ_self k) hstmt).imp (fun _ he => he.mono (Nat.le_succ k))
    fun _ hb => hb.mono (Nat.le_succ k)

theorem callable_trueTerms {n : Nat} {other : Inner}
    (hlevel : ∀ file, (balance (TrueTerms keys size file) fun _ => True).Level c
      (Covered keys size file) (CoveredExpr keys file size) (CoveredBlock keys file size)
      (innerUpTo n) other) (file : String) :
    Callable (TrueTerms keys size file) (fun _ => True) c (innerUpTo n) other where
  body {s id f guard} hs hf hguard := by
    have hcovered : CoveredFunction keys size f := hf ▸ hs.covered.functions id.val
    refine ⟨TrueTerms keys size f.file, ?_,
      (hlevel f.file).evaluateBody (CoveredFunction.met hcovered), fun functions hback => ?_⟩
    · exact ⟨⟨rfl, hs.covered.functions, List.countP_le_length⟩, hs.truthful⟩
    · exact ⟨⟨hs.covered.place, hback.covered.functions, List.countP_le_length⟩, hback.truthful⟩
  remember {s t id f guard arguments inferred} hs hf hguard hrun ht := by
    refine ⟨ht.covered.remember id _ _, fun i => getD_modify_rec (ht.truthful i) fun hi => ?_⟩
    subst hi
    refine (ht.truthful id.val).remember fun declared hdeclared => ?_
    have hsame : (t.arena.functionAt id).declared? = f.declared? :=
      FunctionInfo.declared?_eq_of_bare (bare_runBody hf hguard hrun)
    have hdeclared : (t.arena.functionAt id).declared? = some declared := hdeclared
    rw [← hsame, hdeclared]
    rfl

theorem level_trueTerms (h : CoveredImports keys size c)
    (hp : ∀ file s, s.Meets (TrueTerms keys size file) → ¬p s) (n : Nat) (file : String) :
    (balance (TrueTerms keys size file) fun _ => True).Level c (Covered keys size file)
      (CoveredExpr keys file size) (CoveredBlock keys file size) (innerUpTo n)
      (interruptedUpTo p u n) := by
  induction n generalizing file with
  | zero =>
    have level : (balance (TrueTerms keys size file) fun _ => True).Level c (Covered keys size file)
        (CoveredExpr keys file size) (CoveredBlock keys file size) (innerUpTo 0) (innerUpTo 0) :=
      { lawful_balance (fair_trueTerms h file) with
        expr := fun _ => .throw trivial
        block := fun _ => .throw trivial
        call := fun _ _ _ => .throw trivial
        children := fun he hk => (he.mono (Nat.le_succ size)).child hk }
    exact level.interrupted (hp file)
  | succ n ih =>
    have law := lawful_balance (fair_trueTerms h file)
    have level : (balance (TrueTerms keys size file) fun _ => True).Level c (Covered keys size file)
        (CoveredExpr keys file size) (CoveredBlock keys file size) (innerUpTo n).over
        (interruptedUpTo p u n).over :=
      { law with
        expr := fun he => (ih file).exprOver he.evaluable_self
        block := fun hb => (ih file).blockOver fun _ hs => hb.checkable_self hs
        call := (callable_trueTerms ih file).callOver law
        children := fun he hk => (he.mono (Nat.le_succ size)).child hk }
    exact level.interrupted (hp file)

end Levels

theorem stop_of_evaluateBody {inner : Inner} {c : Context} {s : Session} {definition : FunctionDef Stmt}
    {stop : Stop} (h : ((evaluateBody inner (.statements definition)).outcome c s).1 = .error stop) :
    ((inner.block definition.body).outcome c s).1 = .error stop := by
  rw [evaluateBody, outcome_bind] at h
  rcases hinner : (inner.block definition.body).outcome c s with ⟨_ | _, _⟩
  · rw [hinner, andThen_error] at h
    cases h
    rfl
  · rw [hinner] at h
    cases h

namespace Job

variable {job : Job}

theorem trueTerms_start (h : ∀ table ∈ job.parent, ∀ i,
      (table.world.arena.functions.getD i default).Truthful) :
    job.start.2.Meets (TrueTerms job.keys job.nodes job.path) where
  covered := job.coveredTerms_start
  truthful i := by
    change (job.world.arena.functions.getD i default).Truthful
    unfold world
    cases hparent : job.parent with
    | none => exact FunctionInfo.truthful_of_calls rfl
    | some table => exact h table hparent i

end Job

theorem SymbolTable.Produced.truthful {table : SymbolTable} (h : table.Produced) (i : Nat) :
    (table.world.arena.functions.getD i default).Truthful := by
  induction h generalizing i with
  | @run job outcome parent modules plain hints hrun ih =>
    have hproper : job.Proper := ⟨parent, modules, plain, hints⟩
    have hstart : job.start.2.Meets (TrueTerms job.keys job.nodes job.path) :=
      Job.trueTerms_start fun table htable => ih table htable
    have hlevel := level_trueTerms (p := fun _ => False) (u := job.start.2) hproper.coveredImports
      (fun _ _ _ h => h) job.fuel job.path
    have hmoves := (hlevel.block job.coveredBlock _ hstart).moves
    rw [Job.run_eq] at hrun
    split at hrun
    · rename_i hfinal
      rw [hfinal] at hmoves
      cases hrun
      exact hmoves.1.truthful i
    · cases hrun

namespace Job

variable {job : Job} {t : Session}

/-- Wherever a run comes to, all functions have keys and what is remembered is true. -/
theorem Proper.trueTerms_of_visits (h : job.Proper) (ht : job.Visits t) :
    t.Meets (TrueTerms job.keys job.nodes t.hub.cursor.file) := by
  by_contra hn
  obtain ⟨u, hne⟩ := ht
  have hp (file : String) (s : Session) (hs : s.Meets (TrueTerms job.keys job.nodes file)) : s ≠ t := by
    rintro rfl
    have hplace : s.hub.cursor.file = file := hs.covered.place
    exact hn (hplace ▸ hs)
  have hstart := trueTerms_start fun table htable => (h.parent table htable).truthful
  have hlevel := level_trueTerms (u := u) h.coveredImports hp job.fuel job.path
  exact hne (hlevel.block job.coveredBlock _ hstart).same.symm

/-- Where all functions have keys, the body of a function does not lack depth, if it is let go deep enough. -/
theorem Proper.reevaluated_lasts (h : job.Proper)
    (ht : t.Meets (TrueTerms job.keys job.nodes t.hub.cursor.file)) (id : FunctionId)
    (arguments : List (String × Ty)) {n : Nat} (hn : fuelWith job.nodes job.keys.length job.nodes ≤ n) :
    t.reevaluated job.context n id arguments ≠ .error .exhausted := by
  let f := t.arena.functionAt id
  let started : Session :=
    { t with arena := t.arena.forgetCalls, guard := (t.guard.enter? f.guardKey).getD t.guard }
  have hcovered (i : Nat) : CoveredFunction job.keys job.nodes (t.arena.forgetCalls.functionAt ⟨i⟩) := by
    rw [Arena.functionAt_forgetCalls]
    exact ht.covered.functions i
  have hentered : (started.entering id f arguments).Meets
      (CoveredTerms job.keys job.nodes job.keys.length f.file) :=
    ⟨rfl, hcovered, List.countP_le_length⟩
  have hlevel := level_of_fuel h.coveredImports f.file (Nat.le_refl _) hn hn
  have hmet : Met (CoveredExpr job.keys f.file job.nodes) (CoveredBlock job.keys f.file job.nodes) f.body :=
    CoveredFunction.met (ht.covered.functions id.val)
  have hlasts := (hlevel.evaluateBody hmet _ hentered).stop
  intro hstop
  change ((runBody (innerUpTo n) id f arguments).outcome job.context started).1.map (f.declared?.getD ·) = _ at hstop
  rw [outcome_runBody] at hstop
  rcases hout : (evaluateBody (innerUpTo n) f.body).outcome job.context (started.entering id f arguments) with
    ⟨stop | value, u⟩
  · rw [hout] at hstop hlasts
    cases hstop
    exact hlasts .exhausted rfl rfl
  · rw [hout] at hstop
    cases hstop

/-- The body of a definition comes to an end then, since a block passes over its faults. -/
theorem Proper.reevaluated_ok (h : job.Proper) (ht : t.Meets (TrueTerms job.keys job.nodes t.hub.cursor.file))
    {id : FunctionId} {definition : FunctionDef Stmt}
    (hbody : (t.arena.functionAt id).body = .statements definition) (arguments : List (String × Ty)) {n : Nat}
    (hn : fuelWith job.nodes job.keys.length job.nodes ≤ n) :
    ∃ inferred, t.reevaluated job.context n id arguments =
      .ok ((t.arena.functionAt id).declared?.getD inferred) := by
  let f := t.arena.functionAt id
  let started : Session :=
    { t with arena := t.arena.forgetCalls, guard := (t.guard.enter? f.guardKey).getD t.guard }
  have hlasts := h.reevaluated_lasts ht id arguments hn
  obtain ⟨k, rfl⟩ : ∃ k, n = k + 1 := ⟨n - 1, by unfold fuelWith at hn; omega⟩
  change ((runBody (innerUpTo (k + 1)) id f arguments).outcome job.context started).1.map (f.declared?.getD ·) ≠ _
    at hlasts
  change ∃ inferred, ((runBody (innerUpTo (k + 1)) id f arguments).outcome job.context started).1.map
    (f.declared?.getD ·) = _
  rw [outcome_runBody] at hlasts ⊢
  rcases hout : (evaluateBody (innerUpTo (k + 1)) f.body).outcome job.context
    (started.entering id f arguments) with ⟨stop | value, u⟩
  · have hblock : (((innerUpTo (k + 1)).block definition.body).outcome job.context
        (started.entering id f arguments)).1 = .error stop := by
      change f.body = _ at hbody
      rw [hbody] at hout
      exact stop_of_evaluateBody (congrArg Prod.fst hout)
    rw [hout, stop_blockOver _ _ _ _ hblock] at hlasts
    exact absurd rfl hlasts
  · exact ⟨u.returned id f value, rfl⟩

end Job

namespace Session

def reader : FunctionInfo where
  name := "<lambda>"
  body := .lambda ⟨1, .name "x", default⟩
  captured := ⟨0⟩
  hasReturn := true
  alwaysReturns := true
  reads := ["x"]
  line := 2

def caller : FunctionInfo where
  name := "<lambda>"
  body := .lambda ⟨3, .call ⟨2, .name "g", default⟩ [] [], default⟩
  captured := ⟨0⟩
  hasReturn := true
  alwaysReturns := true
  reads := ["g"]
  calls := [(⟨[], [some (.function ⟨0⟩)]⟩, .int)]
  line := 3

/-- The session in which `x` has a type, `g` is `lambda: x` and `f` is `lambda: g()`. -/
def calling (t : Ty) : Session where
  arena := { functions := #[reader, caller] }
  scopes :=
    { all := #[{ name := "__global__", bindings := ⟨[
        ("x", { type := t, confidence := 0.5 }),
        ("g", { type := .function ⟨0⟩, confidence := 0.5 }),
        ("f", { type := .function ⟨1⟩, confidence := 0.5 })]⟩ }] }
  hub := default

variable {t : Ty}

theorem cached_calling (arguments : List (String × Ty)) :
    caller.cached? ⟨arguments, caller.capturedView (calling t).scopes⟩ =
      if arguments = [] then some .int else none := by
  have hview : caller.capturedView (calling t).scopes = [some (.function ⟨0⟩)] := rfl
  have hcalls : caller.calls = [(⟨[], [some (.function ⟨0⟩)]⟩, .int)] := rfl
  cases arguments <;>
    simp [FunctionInfo.cached?, hview, hcalls, CallKey.agrees, CallKey.agrees.sameOption, listAgree,
      Ty.identical]

theorem reevaluated_calling (ht : t.isUndefined = false) (n : Nat) :
    (calling t).reevaluated { treeFile := "" } (n + 5) ⟨1⟩ [] = .ok t := by
  let c : Context := { treeFile := "" }
  let started : Session :=
    { calling t with arena := (calling t).arena.forgetCalls, guard := ⟨[caller.guardKey], 1⟩ }
  let s := started.entering ⟨1⟩ caller []
  let name : Expr := ⟨2, .name "g", default⟩
  let u := keeping s name (.function ⟨0⟩)
  have hg : u.arena.functionAt ⟨0⟩ = reader := (calling t).arena.functionAt_forgetCalls ⟨0⟩
  have hguard : (⟨[caller.guardKey], 1⟩ : Guard).enter? reader.guardKey =
      some ⟨[reader.guardKey, caller.guardKey], 2⟩ := if_neg (by decide)
  have hname : (exprOver (innerUpTo (n + 3)) name).outcome c s = (.ok (.function ⟨0⟩), u) := by
    refine outcome_exprOver_new Std.TreeMap.getElem?_emptyc rfl ?_
    exact outcome_evaluate_name (b := { type := .function ⟨0⟩, confidence := 0.5 }) rfl rfl
  have hcall : ((callOver (innerUpTo (n + 3)) ⟨0⟩ none {}).outcome c u).1 = .ok t := by
    rw [outcome_callOver hg rfl rfl]
    refine resultOver_new rfl hguard ?_
    refine runBody_lambda rfl (exprOver_new ?_ rfl ?_)
    · change (Std.TreeMap.insert _ _ _)[_]? = none
      rw [Memo.getElem?_insert]
      exact Std.TreeMap.getElem?_emptyc
    · rw [outcome_evaluate_name (b := { type := t, confidence := 0.5 }) rfl ht]
  have hbody : ((runBody (innerUpTo (n + 5)) ⟨1⟩ caller []).outcome c started).1 = .ok t := by
    refine runBody_lambda rfl (exprOver_new Std.TreeMap.getElem?_emptyc rfl ?_)
    rw [outcome_evaluate_call (by decide) hname, outcome_callType_function hg rfl]
    exact hcall
  exact congrArg (Except.map (caller.declared?.getD ·)) hbody

/-- A name that only a callee reads is not part of what a call is looked up by. -/
theorem not_fresh_name_of_callee :
    (calling .int).Fresh { treeFile := "" } ⟨1⟩ ∧
      ¬(calling (.union ⟨[.int, .str], [0.5, 0.5]⟩)).Fresh { treeFile := "" } ⟨1⟩ := by
  constructor
  · intro arguments known hknown
    replace hknown := (cached_calling arguments).symm.trans hknown
    split at hknown
    · rename_i hnone
      subst hnone
      refine ⟨5, fun n hn => ⟨.int, ?_, Option.some.inj hknown ▸ Ty.alike_refl _⟩⟩
      obtain ⟨m, rfl⟩ := Nat.exists_eq_add_of_le' hn
      exact reevaluated_calling rfl m
    · cases hknown
  · intro hfresh
    obtain ⟨m, hm⟩ := hfresh [] .int ((cached_calling []).trans (if_pos rfl))
    obtain ⟨result, hresult, halike⟩ := hm (m + 5) (Nat.le_add_right m 5)
    rw [reevaluated_calling rfl] at hresult
    cases hresult
    simp [Ty.alike] at halike

end Session

end Credence

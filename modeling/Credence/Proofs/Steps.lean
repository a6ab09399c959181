import Credence.Proofs.Balance

namespace Credence

open CheckM

namespace Check

variable {inner : Inner} {c : Context} {s : Session} {e : Expr} {id : FunctionId} {f : FunctionInfo} {t : Ty}

def keeping (s : Session) (e : Expr) (t : Ty) : Session :=
  let stamp : Stamp := ⟨s.scopes.current, s.scopes.generation, s.arena.generation⟩
  { s with memo := s.memo.store e.span.start.file e.id t stamp }

theorem outcome_exprOver_new {u : Session} (hmemo : s.memo.entries[(e.span.start.file, e.id)]? = none)
    (hhints : c.hints.entries = []) (h : (evaluate inner e).outcome c s = (.ok t, u)) :
    (exprOver inner e).outcome c s = (.ok t, keeping u e t) := by
  have hhint : (hint? e).outcome c u = (.ok none, u) := by
    simp [hint?, Hints.get?, hhints]
  simp [exprOver, stamp, Memo.get, hmemo, h, hhint, keeping]

theorem exprOver_new (hmemo : s.memo.entries[(e.span.start.file, e.id)]? = none)
    (hhints : c.hints.entries = []) (h : ((evaluate inner e).outcome c s).1 = .ok t) :
    ((exprOver inner e).outcome c s).1 = .ok t := by
  rcases hout : (evaluate inner e).outcome c s with ⟨r, u⟩
  rw [hout] at h
  rw [outcome_exprOver_new hmemo hhints (hout.trans (congrArg (·, u) h))]

theorem outcome_evaluate_name {node : Nat} {name : String} {span : Span} {b : Binding}
    (h : s.scopes.lookup name = some b) (hdefined : b.type.isUndefined = false) :
    (evaluate inner ⟨node, .name name, span⟩).outcome c s = (.ok b.type, s) := by
  simp [evaluate, getScopes, h, hdefined]

theorem outcome_evaluate_single {u : Session} {node : Nat} {elt : Expr} {span : Span}
    (hplain : elt.starred? = none) (h : (inner.expr elt).outcome c s = (.ok t, u)) :
    (evaluate inner ⟨node, .tuple [elt], span⟩).outcome c s = (.ok (.tupleOf [t]), u) := by
  simp only [evaluate, checkDisplay, List.foldlM_cons, List.foldlM_nil, hplain, outcome_bind, h,
    andThen_ok, outcome_pure]
  rfl

theorem outcome_evaluate_attribute {u : Session} {node : Nat} {value : Expr} {name : String}
    {span : Span} {id : ClassId} (hname : name ∉ ["__doc__", "__name__", "__qualname__", "__module__"])
    (hhints : c.hints.entries = [])
    (hvalue : (inner.expr value).outcome c s = (.ok (.classObj id), u))
    (h : (u.arena.classAt id).attributes.get? name = some (.value t)) :
    (evaluate inner ⟨node, .member value name, span⟩).outcome c s = (.ok t, u) := by
  have hhint : (hint? value).outcome c u = (.ok none, u) := by
    simp [hint?, Hints.get?, hhints]
  simp only [List.mem_cons, List.not_mem_nil, or_false, not_or] at hname
  have hread (confidence : Float) :
      u.arena.readAttribute (.classObj id) name confidence = u.arena.hit t := by
    simp [Arena.readAttribute, Arena.readSingle, Arena.readClass, Arena.classLookup, Ty.isUnknown, h,
      hname, Slot.type]
  simp [evaluate, confidenceOf, readAttribute, getArena, modifyArena, reportAll, modifyHub,
    Hub.reportAll, Arena.hit, hvalue, hhint, hread]

theorem outcome_evaluate_plainCall {u : Session} {node : Nat} {func : Expr} {span : Span}
    (hname : ∀ name ∈ ["isinstance", "hasattr", "issubclass", "type"], func.asName? ≠ some name)
    (hmember : ∀ value attr, func.form ≠ .member value attr)
    (h : (inner.expr func).outcome c s = (.ok t, u)) :
    (evaluate inner ⟨node, .call func [] [], span⟩).outcome c s = (callType inner t {}).outcome c u := by
  have hplain (name : String) (hm : name ∈ ["isinstance", "hasattr", "issubclass", "type"]) :
      (namesBuiltin func name).outcome c s = (.ok false, s) := by
    simp [namesBuiltin, hname name hm]
  have hcall : (checkPlainCall inner func [] []).outcome c s = (callType inner t {}).outcome c u := by
    unfold checkPlainCall
    split
    · exact absurd ‹_› (hmember _ _)
    · simp [arguments, h]
  simp [evaluate, checkCall, hplain, hcall]

theorem outcome_evaluate_call {u : Session} {node called : Nat} {name : String} {span place : Span}
    (hname : name ∉ ["isinstance", "hasattr", "issubclass", "type"])
    (h : (inner.expr ⟨called, .name name, place⟩).outcome c s = (.ok t, u)) :
    (evaluate inner ⟨node, .call ⟨called, .name name, place⟩ [] [], span⟩).outcome c s =
      (callType inner t {}).outcome c u := by
  refine outcome_evaluate_plainCall (fun x hm heq => ?_) nofun h
  exact hname (Option.some.inj heq ▸ hm)

def lambdaIn (s : Session) (line : Nat) (body : Expr) : FunctionInfo where
  name := "<lambda>"
  body := .lambda body
  captured := s.scopes.current
  hasReturn := true
  alwaysReturns := true
  reads := body.namesOnto []
  line
  file := s.hub.cursor.file

theorem outcome_evaluate_lambda {node : Nat} {body : Expr} {span : Span} :
    (evaluate inner ⟨node, .lambda {} body, span⟩).outcome c s =
      (.ok (.function ⟨s.arena.functions.size⟩),
        { s with arena := (s.arena.addFunction (lambdaIn s span.line body)).2 }) :=
  rfl

theorem outcome_exprOver_error {u : Session} {stop : Stop}
    (hmemo : s.memo.entries[(e.span.start.file, e.id)]? = none)
    (h : (evaluate inner e).outcome c s = (.error stop, u)) :
    (exprOver inner e).outcome c s = (.error stop, u) := by
  simp [exprOver, stamp, Memo.get, hmemo, h]

theorem outcome_callType_function (hf : s.arena.functionAt id = f) (hkind : f.kind = .ordinary)
    (args : CallArgs) :
    (callType inner (.function id) args).outcome c s = (inner.call id none args).outcome c s := by
  rw [callType.eq_def]
  simp [getArena, hf, hkind]

theorem outcome_callOver (hf : s.arena.functionAt id = f) (hsignature : f.signature = {})
    (hstub : f.isStub = false) :
    (callOver inner id none {}).outcome c s = (resultOver inner id f []).outcome c s := by
  have hbound (a : Arena) (p : Float) : f.bindArguments a p none {} = ([], []) := by
    simp [FunctionInfo.bindArguments, FunctionInfo.bindPositional, FunctionInfo.bindCollectors,
      FunctionInfo.countFindings, hsignature, Signature.named, Table.ofList, Table.insertMany, Table.empty,
      CallArgs.isOpen]
  simp [callOver, getArena, defaultProbability, reportAll, modifyHub, Hub.reportAll, hf, hbound, hstub]

section Results

variable {arguments : List (String × Ty)} {guard : Guard}

theorem outcome_resultOver_busy
    (hcached : f.cached? ⟨arguments, f.capturedView s.scopes⟩ = none)
    (hguard : s.guard.enter? f.guardKey = none) :
    (resultOver inner id f arguments).outcome c s = (recursiveResult id f).outcome c s := by
  simp [resultOver, getScopes, hcached, hguard]

theorem outcome_resultOver_free
    (hcached : f.cached? ⟨arguments, f.capturedView s.scopes⟩ = none)
    (hguard : s.guard.enter? f.guardKey = some guard) :
    (resultOver inner id f arguments).outcome c s =
      andThen ((runBody inner id f arguments).outcome c { s with guard }) c fun inferred => do
        let result := f.declared?.getD inferred
        modifyArena (·.modifyFunction id (·.remember ⟨arguments, f.capturedView s.scopes⟩ result))
        return result := by
  simp [resultOver, getScopes, hcached, hguard]

theorem cached?_of_calls {key : CallKey} (hcalls : f.calls = []) : f.cached? key = none := by
  simp [FunctionInfo.cached?, hcalls]

theorem outcome_resultOver_error {u : Session} {stop : Stop} (hcalls : f.calls = [])
    (hguard : s.guard.enter? f.guardKey = some guard)
    (h : (runBody inner id f arguments).outcome c { s with guard } = (.error stop, u)) :
    (resultOver inner id f arguments).outcome c s = (.error stop, u) := by
  rw [outcome_resultOver_free (cached?_of_calls hcalls) hguard, h, andThen_error]

theorem resultOver_new (hcalls : f.calls = []) (hguard : s.guard.enter? f.guardKey = some guard)
    (h : ((runBody inner id f arguments).outcome c { s with guard }).1 = .ok t) :
    ((resultOver inner id f arguments).outcome c s).1 = .ok (f.declared?.getD t) := by
  rcases hout : (runBody inner id f arguments).outcome c { s with guard } with ⟨r, u⟩
  rw [hout] at h
  rw [show r = .ok t from h] at hout
  rw [outcome_resultOver_free (cached?_of_calls hcalls) hguard, hout]
  rfl

end Results

theorem outcome_runBody_lambda_error {u : Session} {stop : Stop} {arguments : List (String × Ty)}
    (hbody : f.body = .lambda e)
    (h : (inner.expr e).outcome c (s.entering id f arguments) = (.error stop, u)) :
    (runBody inner id f arguments).outcome c s = (.error stop, s.leaving u f) := by
  have hvalue : (evaluateBody inner f.body).outcome c (s.entering id f arguments) = (.error stop, u) := by
    rw [hbody]
    simp [evaluateBody, h]
  rw [outcome_runBody, hvalue]

theorem runBody_lambda {arguments : List (String × Ty)} (hbody : f.body = .lambda e)
    (h : ((inner.expr e).outcome c (s.entering id f arguments)).1 = .ok t) :
    ((runBody inner id f arguments).outcome c s).1 = .ok t := by
  rcases hout : (inner.expr e).outcome c (s.entering id f arguments) with ⟨r, u⟩
  rw [hout] at h
  rw [show r = .ok t from h] at hout
  have hvalue : (evaluateBody inner f.body).outcome c (s.entering id f arguments) = (.ok (some t), u) := by
    rw [hbody]
    simp [evaluateBody, hout]
  rw [outcome_runBody, hvalue]
  rfl

theorem outcome_blockWith_exhausted {check : Stmt → CheckM Unit} {stmt : Stmt} {rest : List Stmt}
    {u : Session} (h : (check stmt).outcome c s = (.error .exhausted, u)) :
    (blockWith check (stmt :: rest)).outcome c s = (.error .exhausted, u) := by
  simp [blockWith, h]

theorem outcome_blockOver_expr {u : Session} {node : Nat} {span : Span}
    (h : (inner.expr e).outcome c { s with hub := s.hub.setLine span.line } = (.ok t, u)) :
    (blockOver inner [⟨node, .expr e, span⟩]).outcome c s = flush.outcome c u := by
  simp [blockOver, blockWith, checkStmt, modifyHub, Stmt.line, h]

end Check

end Credence

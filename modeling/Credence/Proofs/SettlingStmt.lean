import Credence.Check.Stmt
import Credence.Proofs.SettlingExpr

namespace Credence

open Check

namespace Check.Settles

variable {c : Context}

theorem enclosingClass? : Settles c Check.enclosingClass? Check.enclosingClass? fun _ => True :=
  .get_bind fun _ _ => .pure trivial

theorem reportMissingReturn (definition : FunctionDef Stmt) (facts : ReturnFacts)
    (declared? : Option Ty) :
    Settles c (Check.reportMissingReturn definition facts declared?)
      (Check.reportMissingReturn definition facts declared?) fun _ => True := by
  cases declared? with
  | none => exact .pure trivial
  | some declared =>
    unfold Check.reportMissingReturn
    simp only
    split
    · exact (display declared).bind fun shown _ => modifyHub _
    · exact .pure trivial

theorem methodReceiver (id : ClassId) (kind : MethodKind) :
    Settles c (Check.methodReceiver id kind) (Check.methodReceiver id kind) Ty.Settled := by
  unfold Check.methodReceiver
  split
  · exact .pure (.classObj id)
  · exact (addObject id).map fun object _ => .object object

theorem holdToDeclared (f : FunctionInfo) (t : Ty) (confidence : Float) :
    Settles c (Check.holdToDeclared f t confidence) (Check.holdToDeclared f t confidence)
      fun _ => True := by
  unfold Check.holdToDeclared
  split
  · refine getArena.bind fun arena _ => ?_
    simp only
    split
    · exact report _
    · exact .pure trivial
  · exact .pure trivial

theorem recordReturn {t : Ty} (ht : t.Settled) (confidence : Float) :
    Settles c (Check.recordReturn t confidence) (Check.recordReturn t confidence)
      fun _ => True := by
  refine .get_bind fun s _ => ?_
  split
  · refine getArena.bind fun arena _ => (holdToDeclared _ t confidence).bind fun _ _ =>
      .modify fun s hs => ?_
    cases hframes : s.frames with
    | nil => exact hs
    | cons frame rest =>
      obtain ⟨hhead, hrest⟩ := List.forall_mem_cons.1 (hframes ▸ hs.frames)
      refine { hs with frames := List.forall_mem_cons.2 ⟨⟨?_, hhead.yields⟩, hrest⟩ }
      exact List.forall_mem_append.2 ⟨hhead.returns, List.forall_mem_singleton.2 ht⟩
  · exact .pure trivial

theorem removeName (name : String) :
    Settles c (CheckM.modifyScopes fun s => (s.remove name).2)
      (CheckM.modifyScopes fun s => (s.remove name).2) fun _ => True :=
  modifyScopes fun _ hs => hs.remove name

theorem flush : Settles c CheckM.flush CheckM.flush fun _ => True :=
  .modify fun _ hs => ⟨hs.arena, hs.scopes, hs.frames, hs.memo⟩

end Check.Settles

namespace Check.Settling

open Settles
open Ty.Settled (stable)

variable {c : Context} {inner other : Inner} (F : Settling c inner other)
include F

theorem decorated (definition : FunctionDef Stmt) (id : FunctionId) :
    Settles c (Check.decorated inner definition id) (Check.decorated other definition id)
      fun value? => ∀ value ∈ value?, value.Settled := by
  refine .foldlM (settled_receiver (.function id)) fun decorator _ value? hvalue => ?_
  cases value? with
  | none => exact .pure hvalue
  | some value =>
    simp only
    have property : Settles c
        (do return some (((← CheckM.getArena).functionAt id).declaredReturn.getD .any))
        (do return some (((← CheckM.getArena).functionAt id).declaredReturn.getD .any))
        fun value? => ∀ value ∈ value?, value.Settled := by
      refine getArena.bind fun arena harena => .pure (settled_receiver ?_)
      cases hdeclared : (arena.functionAt id).declaredReturn with
      | none => exact .any
      | some declared => exact (harena.function id).declaredReturn declared hdeclared
    split
    all_goals first
      | exact .pure hvalue
      | exact property
      | exact .pure settled_noReceiver
      | skip
    refine (F.expr decorator).bind fun callee hcallee => ?_
    refine (F.callType hcallee.held (settled_oneArg (hvalue value rfl))).bind fun result hresult => ?_
    exact .pure (settled_receiver hresult)

theorem eagerCheck (id : FunctionId) {receiver : Option Ty} (hreceiver : ∀ t ∈ receiver, t.Settled) :
    Settles c (Check.eagerCheck inner id receiver) (Check.eagerCheck other id receiver)
      fun _ => True := by
  refine getArena.bind fun arena harena => ?_
  have hascribed {p : ParamInfo} (hp : p ∈ (arena.functionAt id).signature.all) :
      (p.ascribed.getD .any).Settled := by
    cases hascribed : p.ascribed with
    | none => exact .any
    | some t => exact ((harena.function id).signature p hp).ascribed t hascribed
  refine (F.call id hreceiver ⟨fun t ht => ?_, fun keyword hkeyword => ?_⟩).andPure trivial
  · obtain ⟨p, hp, rfl⟩ := List.mem_map.1 ht
    exact hascribed (by simp [Signature.all, List.mem_of_mem_drop hp])
  · obtain ⟨p, hp, rfl⟩ := List.mem_map.1 hkeyword
    exact hascribed (by simp [Signature.all, hp])

theorem checkFunctionDef (definition : FunctionDef Stmt) :
    Settles c (Check.checkFunctionDef inner definition) (Check.checkFunctionDef other definition)
      fun _ => True := by
  refine Settles.enclosingClass?.bind fun enclosing _ => getScopes.bind fun scopes _ => ?_
  refine (F.signatureOf definition.params).bind fun signature hsignature => ?_
  refine Settles.bind (.optionMapM fun e _ => Settles.ascription e) fun declared hdeclared => ?_
  refine (Settles.reportMissingReturn definition _ declared).bind fun _ _ => .get_bind fun s _ => ?_
  refine Settles.bind (withArena (Q := fun _ => True) fun _ ha =>
    ⟨ha.addFunction ⟨hsignature, hdeclared, ?_, ?_⟩, trivial⟩) fun id _ => ?_
  · exact fun _ h => absurd h (Option.not_mem_none _)
  · exact fun _ h => absurd h List.not_mem_nil
  refine (F.decorated definition id).bind fun value? hvalue => ?_
  cases value? with
  | none => exact .pure trivial
  | some value =>
    refine (bindName _ (hvalue value rfl) _).bind fun _ _ => .read_bind ?_
    simp only
    split
    · exact F.eagerCheck id settled_noReceiver
    · exact .pure trivial

theorem checkBases (bases : List Expr) :
    Settles c (Check.checkBases inner bases) (Check.checkBases other bases) fun _ => True := by
  refine .foldlM trivial fun base _ state _ => ?_
  rcases state with ⟨known, unknown⟩
  simp only
  split
  · exact .pure trivial
  · refine (F.expr base).bind fun t _ => ?_
    cases t with
    | classObj id => exact .pure trivial
    | _ => exact .pure trivial

theorem eagerCheckMethods (id : ClassId) :
    Settles c (Check.eagerCheckMethods inner id) (Check.eagerCheckMethods other id)
      fun _ => True := by
  refine getArena.bind fun arena _ => Settles.andPure (.forIn fun f _ => ?_) trivial
  refine getArena.bind fun arena _ => ?_
  simp only
  cases (arena.functionAt f).body with
  | lambda value => exact .pure trivial
  | statements definition =>
    simp only
    split
    · split
      · exact (F.eagerCheck f settled_noReceiver).andPure trivial
      · split
        · exact (Settles.methodReceiver id _).bind fun receiver hreceiver =>
            (F.eagerCheck f (settled_receiver hreceiver)).andPure trivial
        · exact .pure trivial
    · exact .pure trivial

theorem checkClassDef (definition : ClassDef Stmt) :
    Settles c (Check.checkClassDef inner definition) (Check.checkClassDef other definition)
      fun _ => True := by
  refine Settles.bind (.forIn fun e _ => (F.expr e).andPure trivial) fun _ _ => ?_
  refine (F.checkBases definition.bases).bind fun bases _ => ?_
  refine Settles.bind (.forIn fun keyword _ => (F.expr keyword.value).andPure trivial) fun _ _ =>
    .get_bind fun s _ => ?_
  -- The members that methods assign on their receivers are announced.
  refine Settles.bind (withArena (Q := fun _ => True) fun _ ha =>
    ⟨ha.addClass ⟨Table.all_ofList fun item hitem => ?_, ?_⟩, trivial⟩) fun id _ => ?_
  · obtain ⟨name, -, rfl⟩ := List.mem_map.1 hitem
    exact .inl rfl
  · exact fun _ h => absurd h (Option.not_mem_none _)
  refine Settles.bind (inClassBody (Q := fun members : List (String × Binding) =>
    ∀ member ∈ members, member.2.type.Settled) fun scope => ?_) fun members hmembers => ?_
  · exact (F.block definition.body).bind fun _ _ => getScopes.bind fun scopes hscopes =>
      .pure (hscopes scope)
  refine (modifyArena fun _ ha => ha.modifyClass id fun info hinfo => ?_).bind fun _ _ => ?_
  · refine { hinfo with attributes := hinfo.attributes.insertMany fun item hitem => ?_ }
    obtain ⟨member, hmember, rfl⟩ := List.mem_map.1 hitem
    rw [Slot.type_ofType]
    exact (hmembers member hmember).held
  refine (bindName _ (.classObj id) _).bind fun _ _ => .read_bind ?_
  split
  · exact F.eagerCheckMethods id
  · exact .pure trivial

theorem checkElse (body : List Stmt) :
    Settles c (Check.checkElse inner body) (Check.checkElse other body) fun _ => True := by
  unfold Check.checkElse
  split
  · exact inBranch (F.block body)
  · exact .pure trivial

theorem checkReturn (value : Option Expr) :
    Settles c (Check.checkReturn inner value) (Check.checkReturn other value) fun _ => True := by
  cases value with
  | none => exact .read_bind (Settles.recordReturn (.prim _) _)
  | some value =>
    exact (F.expr value).bind fun t ht => (confidenceOf value).bind fun confidence _ =>
      Settles.recordReturn ht confidence

theorem checkAscribed (target ascribed : Expr) (value : Option Expr) :
    Settles c (Check.checkAscribed inner target ascribed value)
      (Check.checkAscribed other target ascribed value) fun _ => True := by
  refine (Settles.ascription ascribed).bind fun declared hdeclared => ?_
  -- A target that is no name is assigned to as usual.
  have plain (e : Expr) :
      Settles c
        (do
          let t ← inner.expr e
          Check.assign inner target t (← CheckM.confidenceOf e) .checked)
        (do
          let t ← other.expr e
          Check.assign other target t (← CheckM.confidenceOf e) .checked) fun _ => True :=
    (F.expr e).bind fun t ht => (confidenceOf e).bind fun confidence _ => F.assign target ht _ _
  cases target.form with
  | name name =>
    cases value with
    | none =>
      refine getScopes.bind fun scopes _ => ?_
      split
      · exact setName name hdeclared _
      · exact .pure trivial
    | some value =>
      refine (F.expr value).bind fun t ht => (confidenceOf value).bind fun confidence _ => ?_
      refine getScopes.bind fun scopes hscopes => getArena.bind fun arena _ => ?_
      refine Settles.bind (modifyScopes fun _ _ => ?_) fun _ _ => Settles.reportAll _
      exact hscopes.addAscribed name hdeclared ht confidence
  | _ =>
    cases value with
    | none => exact .pure trivial
    | some value => exact plain value

theorem caughtType (type : Option Expr) :
    Settles c (Check.caughtType inner type) (Check.caughtType other type) Ty.Settled := by
  cases type with
  | none => exact .pure .any
  | some e =>
    refine (F.expr e).bind fun t _ => (Settles.instanceType? t).bind fun found hfound => .pure ?_
    cases found with
    | none => exact .any
    | some caught => exact hfound caught rfl

theorem checkHandler (handler : Handler Stmt) :
    Settles c (Check.checkHandler inner handler) (Check.checkHandler other handler)
      fun _ => True := by
  refine (modifyHub _).bind fun _ _ => (F.caughtType handler.type).bind fun caught hcaught => ?_
  cases handler.name with
  | none => exact F.block _
  | some name =>
    exact (setName name hcaught _).bind fun _ _ => (F.block _).bind fun _ _ => removeName name

theorem checkTry (body : List Stmt) (handlers : List (Handler Stmt)) (orelse finalbody : List Stmt) :
    Settles c (Check.checkTry inner body handlers orelse finalbody)
      (Check.checkTry other body handlers orelse finalbody) fun _ => True := by
  refine (suppressing (F.block body)).bind fun _ _ => ?_
  refine Settles.bind (.forEach fun handler _ => F.checkHandler handler) fun _ _ => ?_
  exact (F.block orelse).bind fun _ _ => F.block finalbody

theorem enteredType {context : Ty} (hcontext : context.Settled) :
    Settles c (Check.enteredType inner context) (Check.enteredType other context) Ty.Settled := by
  cases context with
  | object id => exact F.callSpecial_getD id _ settled_noArgs
  | _ => exact .pure hcontext

theorem checkWith (items : List WithItem) (body : List Stmt) :
    Settles c (Check.checkWith inner items body) (Check.checkWith other items body)
      fun _ => True := by
  refine Settles.bind (.forIn fun item _ => ?_) fun _ _ => suppressing (F.block body)
  refine (F.expr item.context).bind fun context hcontext => ?_
  cases item.vars with
  | none => exact .pure trivial
  | some vars =>
    refine (F.enteredType hcontext).bind fun entered hentered => ?_
    exact (confidenceOf item.context).bind fun confidence _ =>
      (F.assign vars hentered confidence _).andPure trivial

theorem checkDelete (target : Expr) :
    Settles c (Check.checkDelete inner target) (Check.checkDelete other target) fun _ => True := by
  -- By induction on the size of the target.
  induction target using WellFounded.induction (measure (sizeOf : Expr → Nat)).wf with
  | _ target ih =>
    have plain : Settles c (inner.expr target >>= fun _ => pure ())
        (other.expr target >>= fun _ => pure ()) fun _ => True := (F.expr target).andPure trivial
    rw [checkDelete.eq_def inner, checkDelete.eq_def other]
    rcases target with ⟨node, form, span⟩
    cases form with
    | name name => exact removeName name
    | member value attr =>
      exact (F.expr value).bind fun owner _ => modifyArena fun _ ha => ha.deleteAttribute owner attr
    | tuple targets | list targets =>
      exact .forM fun target _ => ih target.1 (Expr.sizeOf_lt_of_mem_children target.2)
    | _ => exact plain

theorem checkStmt (stmt : Stmt) :
    Settles c (Check.checkStmt inner stmt) (Check.checkStmt other stmt) fun _ => True := by
  refine (modifyHub _).bind fun _ _ => ?_
  cases stmt.form with
  | expr value => exact (F.expr value).andPure trivial
  | assign targets value =>
    refine (F.expr value).bind fun t ht => (confidenceOf value).bind fun confidence _ => ?_
    exact Settles.andPure (.forEach fun target _ => F.assign target ht confidence _) trivial
  | ascribe target ascribed value => exact F.checkAscribed target ascribed value
  | augAssign target op value =>
    refine (F.expr target).bind fun current hcurrent => (F.expr value).bind fun operand hoperand => ?_
    refine (confidenceOf target).bind fun p _ => (confidenceOf value).bind fun q _ => ?_
    exact (F.binaryResult op hcurrent hoperand _).bind fun result hresult =>
      F.assign target hresult _ _
  | ret value => exact F.checkReturn value
  | pass | brk | cont => exact .pure trivial
  | ifElse test body orelse | whileLoop test body orelse =>
    refine (inBranch ?_).bind fun _ _ => F.checkElse orelse
    exact (F.checkCondition test).bind fun _ _ => F.block body
  | forLoop target iter body orelse isAsync =>
    refine (F.expr iter).bind fun iterable hiterable => ?_
    refine (F.iterationType hiterable).bind fun element helement => ?_
    refine (confidenceOf iter).bind fun confidence _ => ?_
    refine (inBranch ?_).bind fun _ _ => F.checkElse orelse
    exact (F.assign target helement confidence _).bind fun _ _ => F.block body
  | tryExcept body handlers orelse finalbody => exact F.checkTry body handlers orelse finalbody
  | withItems items body isAsync => exact F.checkWith items body
  | functionDef definition => exact F.checkFunctionDef definition
  | classDef definition => exact F.checkClassDef definition
  | importModules names =>
    exact Settles.andPure (.forEach fun a _ => Settles.importModule F.context a) trivial
  | importFrom module names level => exact Settles.importFrom F.context module names
  | globalNames names =>
    refine Settles.andPure (.forEach fun name _ => modifyScopes fun _ hs => ?_) trivial
    exact hs.redirect name _
  | nonlocalNames names =>
    refine Settles.andPure (.forEach fun name _ => modifyScopes fun _ hs => ?_) trivial
    exact hs.declareNonlocal name
  | delete targets => exact Settles.andPure (.forEach fun target _ => F.checkDelete target) trivial
  | assert test message =>
    refine (F.checkCondition test).bind fun _ _ => ?_
    cases message with
    | none => exact .pure trivial
    | some e =>
      rw [Option.forIn_some, Option.forIn_some]
      refine Settles.andPure (Q := fun _ => True) (Settles.bind (Q := fun _ => True) ?_ fun step _ => ?_)
        trivial
      · exact (F.expr e).andPure trivial
      · exact .pure trivial
  | raise exc cause => exact Settles.andPure (.forIn fun e _ => (F.expr e).andPure trivial) trivial

theorem blockOver (body : List Stmt) :
    Settles c (Check.blockOver inner body) (Check.blockOver other body) fun _ => True := by
  refine Settles.bind (.forIn fun stmt _ => ?_) fun _ _ => Settles.flush
  refine (F.checkStmt stmt).attempt.bind fun result _ => ?_
  rcases result with stop | done
  · cases stop with
    | fault f => exact .get_bind fun s _ => (warn _).andPure trivial
    | exhausted => exact Settles.bind (Q := fun _ => True) (.throw _) fun _ _ => .pure trivial
  · exact .pure trivial

end Check.Settling

end Credence

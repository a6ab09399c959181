import Credence.Check.Stmt
import Credence.Proofs.FootingExpr

namespace Credence

open Check
open CheckM (outcome_attempt)

namespace Discipline.Founded

open Yields

variable {α : Type} {c : Context} {s : Session}

theorem inBranch (hs : s.Founded) {name : String} {x y : CheckM Unit}
    (h : ∀ t, founded.Moves s t → founded.Yields c x y t fun _ _ => True) :
    founded.Yields c (CheckM.inBranch name x) (CheckM.inBranch name y) s fun _ _ => True := by
  refine Yields.bind (Q := fun _ _ => True) (.modifyGet (hs.enter name).1 trivial)
    fun _ t hst _ => (h t hst).ensuring (fun u htu => htu.trans ?_) fun _ _ _ _ => trivial
  exact Session.moves_of_has (World.contains_of_size (u.scopes.size_exitBranch u.arena))
    { htu.1 with scopes := htu.1.scopes.exitBranch _ }

theorem inClassBody (hs : s.Founded) {name : String} {id : ClassId} (hid : s.Has (.cls id))
    {x y : ScopeId → CheckM α} {Q : Session → α → Prop} (hQ : Lasting founded Q)
    (h : ∀ scope t, founded.Moves s t → t.Has (.scope scope) →
      founded.Yields c (x scope) (y scope) t Q) :
    founded.Yields c (CheckM.inClassBody name id x) (CheckM.inClassBody name id y) s Q := by
  have henter := hs.enter name
  refine Yields.bind (Q := fun t scope => t.Has (.scope scope)) (.modifyGet henter.1 henter.2)
    fun scope t hst hscope => ?_
  refine Yields.bind (Q := fun _ _ => True) (.modify (Session.moves_of_has rfl ?_) trivial)
    fun _ u htu _ => ?_
  · exact { hst.1 with
      classScopes := List.forall_mem_cons.2 ⟨⟨hscope, hst.grows _ hid⟩, hst.1.classScopes⟩ }
  have hexit {v : Session} (hv : v.Founded) :
      founded.Moves v { v with classScopes := v.classScopes.tail, scopes := v.scopes.exit } :=
    Session.moves_of_has (World.contains_of_size v.scopes.size_exit)
      { hv with
        classScopes := fun entry hentry => hv.classScopes entry (List.mem_of_mem_tail hentry)
        scopes := hv.scopes.exit }
  refine (h scope u (hst.trans htu) (htu.grows _ hscope)).ensuring
    (fun v huv => huv.trans (hexit huv.1)) fun a v huv ha => hQ (hexit huv.1) ha

theorem suppressing (hs : s.Founded) {kinds : List DiagnosticKind} {x y : CheckM Unit}
    (h : ∀ t, founded.Moves s t → founded.Yields c x y t fun _ _ => True) :
    founded.Yields c (CheckM.suppressing kinds x) (CheckM.suppressing kinds y) s
      fun _ _ => True := by
  refine (modifyHub hs _).bind fun _ t hst _ => ?_
  refine (h t hst).ensuring (fun _ htu => ?_) fun _ _ _ _ => trivial
  exact htu.trans (Session.moves_of_has rfl { htu.1 with })

end Discipline.Founded

namespace Discipline.Footing

open Yields Founded

variable {c : Context} {inner other : Inner} {s : Session}

theorem enclosingClass? (hs : s.Founded) :
    founded.Yields c Check.enclosingClass? Check.enclosingClass? s fun t enclosing =>
      ∀ entry ∈ enclosing, t.Has (.scope entry.1) ∧ t.Has (.cls entry.2) := by
  refine .of_ok (t := s) rfl (.refl hs) fun entry hentry => ?_
  exact hs.classScopes entry (List.mem_of_mem_head? (Option.mem_filter_iff.1 hentry).1)

theorem has_captured (hs : s.Founded) (enclosing : Option (ScopeId × ClassId)) :
    s.Has (.scope (match enclosing with
      | some (scope, _) => (s.scopes.scopeAt scope).parent.getD Scopes.global
      | none => s.scopes.current)) := by
  cases enclosing with
  | none => exact hs.scopes.current
  | some entry =>
    simp only
    cases hparent : (s.scopes.scopeAt entry.1).parent with
    | none => exact hs.scopes.global
    | some parent => exact (hs.scopes.scope entry.1).parent parent hparent

theorem reportMissingReturn (hs : s.Founded) (definition : FunctionDef Stmt) (facts : ReturnFacts)
    (declared? : Option Ty) :
    founded.Yields c (Check.reportMissingReturn definition facts declared?)
      (Check.reportMissingReturn definition facts declared?) s fun _ _ => True := by
  cases declared? with
  | none => exact .pure hs trivial
  | some declared =>
    unfold Check.reportMissingReturn
    simp only
    split
    · exact (display hs declared).bind fun shown t hst _ => modifyHub hst.1 _
    · exact .pure hs trivial

theorem methodReceiver (hs : s.Founded) {id : ClassId} (hid : s.Has (.cls id)) (kind : MethodKind) :
    founded.Yields c (Check.methodReceiver id kind) (Check.methodReceiver id kind) s
      Session.Backs := by
  unfold Check.methodReceiver
  split
  · exact .pure hs (.classObj hid)
  · exact (addObject hs hid).map fun object t _ hobject => .object hobject

section Definitions

variable (F : Footing c inner other)
include F

theorem decorated (hs : s.Founded) (definition : FunctionDef Stmt) {id : FunctionId}
    (hid : s.Has (.function id)) :
    founded.Yields c (Check.decorated inner definition id) (Check.decorated other definition id) s
      fun t value? => ∀ value ∈ value?, t.Backs value := by
  have first : ∀ value ∈ some (Ty.function id), s.Backs value :=
    fun _ h => Option.mem_some.1 h ▸ .function hid
  refine .foldlM hs first fun decorator _ value? t hst hvalue => ?_
  cases value? with
  | none => exact .pure hst.1 hvalue
  | some value =>
    simp only
    have property : founded.Yields c
        (do return some (((← CheckM.getArena).functionAt id).declaredReturn.getD .any))
        (do return some (((← CheckM.getArena).functionAt id).declaredReturn.getD .any)) t
        fun u (value? : Option Ty) => ∀ value ∈ value?, u.Backs value := by
      refine (getArena hst.1).bind fun arena u hu h => .pure hu.1 fun r hr => ?_
      obtain ⟨rfl, rfl⟩ := h
      have hinfo := hu.1.arena.function id (hst.grows _ hid)
      rw [← Option.mem_some.1 hr]
      cases hdeclared : (u.arena.functionAt id).declaredReturn with
      | none => exact .any
      | some declared => exact hinfo.declaredReturn declared hdeclared
    split
    all_goals first
      | exact .pure hst.1 hvalue
      | exact property
      | exact .pure hst.1 fun _ h => absurd h (Option.not_mem_none _)
      | skip
    refine (F.expr decorator hst.1).bind fun callee u hu hcallee => ?_
    refine (F.callType hu.1 hcallee (sound_oneArg (hu.backs (hvalue value rfl)))).bind
      fun result v hv hresult => .pure hv.1 fun _ h => Option.mem_some.1 h ▸ hresult

theorem eagerCheck (hs : s.Founded) {id : FunctionId} (hid : s.Has (.function id))
    {receiver : Option Ty} (hreceiver : ∀ t ∈ receiver, s.Backs t) :
    founded.Yields c (Check.eagerCheck inner id receiver) (Check.eagerCheck other id receiver) s
      fun _ _ => True := by
  refine (getArena hs).bind fun arena t hst h => ?_
  obtain ⟨rfl, rfl⟩ := h
  have hsignature := (hs.arena.function id hid).signature
  have hascribed {p : ParamInfo} (hp : p ∈ (t.arena.functionAt id).signature.all) :
      t.Backs (p.ascribed.getD .any) := by
    cases hascribed : p.ascribed with
    | none => exact .any
    | some type => exact (hsignature p hp).ascribed type hascribed
  refine (F.call hs hid hreceiver ⟨fun type htype => ?_, fun keyword hkeyword => ?_⟩).bind
    fun _ u hu _ => .pure hu.1 trivial
  · obtain ⟨p, hp, rfl⟩ := List.mem_map.1 htype
    exact hascribed (by simp [Signature.all, List.mem_of_mem_drop hp])
  · obtain ⟨p, hp, rfl⟩ := List.mem_map.1 hkeyword
    exact hascribed (by simp [Signature.all, hp])

theorem checkFunctionDef (hs : s.Founded) (definition : FunctionDef Stmt) :
    founded.Yields c (Check.checkFunctionDef inner definition)
      (Check.checkFunctionDef other definition) s fun _ _ => True := by
  refine (enclosingClass? hs).bind fun enclosing t hst henclosing => ?_
  refine (getScopes hst.1).bind fun scopes u htu h => ?_
  obtain ⟨rfl, rfl⟩ := h
  have hcaptured := has_captured hst.1 enclosing
  refine (F.signatureOf hst.1 definition.params).bind fun signature v huv hsignature => ?_
  refine Yields.bind (.optionMapM huv.1 fun e _ => ascription huv.1 e)
    fun declared w hvw hdeclared => ?_
  refine (reportMissingReturn hvw.1 definition _ declared).bind fun _ x hwx _ => .get_bind ?_
  have hux := (huv.trans hvw).trans hwx
  refine (addFunction hwx.1 ⟨hsignature.mono (hvw.trans hwx).grows, hwx.option hdeclared, ?_, ?_,
    hux.grows _ hcaptured, ?_⟩).bind fun id y hxy hid => ?_
  · exact fun _ h => absurd h (Option.not_mem_none _)
  · intro owner howner
    obtain ⟨entry, hentry, rfl⟩ := Option.map_eq_some_iff.1 howner
    exact hux.grows _ (henclosing entry hentry).2
  · exact fun _ h => absurd h List.not_mem_nil
  refine (F.decorated hxy.1 definition hid).bind fun value? z hyz hvalue => ?_
  cases value? with
  | none => exact .pure hyz.1 trivial
  | some value =>
    refine (bindName hyz.1 _ (hvalue value rfl) _).bind fun _ z' hz _ => .read_bind ?_
    simp only
    split
    · exact F.eagerCheck hz.1 ((hyz.trans hz).grows _ hid) fun _ h => absurd h (Option.not_mem_none _)
    · exact .pure hz.1 trivial

theorem checkBases (hs : s.Founded) (bases : List Expr) :
    founded.Yields c (Check.checkBases inner bases) (Check.checkBases other bases) s
      fun t found => ∀ id ∈ found.1, t.Has (.cls id) := by
  refine .foldlM hs (fun _ h => absurd h List.not_mem_nil) fun base _ state t hst hstate => ?_
  rcases state with ⟨known, unknown⟩
  simp only
  split
  · exact .pure hst.1 hstate
  · refine (F.expr base hst.1).bind fun type u hu htype => ?_
    have hknown : ∀ id ∈ known, u.Has (.cls id) := fun id hid => hu.grows _ (hstate id hid)
    cases type with
    | classObj id =>
      refine .pure hu.1 (List.forall_mem_append.2 ⟨hknown, List.forall_mem_singleton.2 ?_⟩)
      exact htype.has_of_mentions (.classObj id)
    | _ => exact .pure hu.1 hknown

theorem eagerCheckMethods (hs : s.Founded) {id : ClassId} (hid : s.Has (.cls id)) :
    founded.Yields c (Check.eagerCheckMethods inner id) (Check.eagerCheckMethods other id) s
      fun _ _ => True := by
  refine (getArena hs).bind fun arena t hst h => ?_
  obtain ⟨rfl, rfl⟩ := h
  refine Yields.bind (.forIn hs fun f hf u hu => ?_) fun _ u hu _ => .pure hu.1 trivial
  have hf : u.Has (.function f) := by
    obtain ⟨⟨name, slot⟩, hentry, hslot⟩ := List.mem_filterMap.1 hf
    cases slot with
    | value type => cases hslot
    | function g =>
      simp only [Option.ite_none_right_eq_some, Option.some.injEq] at hslot
      have hsound : (Ty.function g).Sound t.Has := (hs.arena.cls id).attributes _ hentry
      exact hu.grows _ (hslot.2 ▸ hsound.has_of_mentions (.function g))
  refine (getArena hu.1).bind fun arena v hv _ => ?_
  have hf := hv.grows _ hf
  simp only
  cases (arena.functionAt f).body with
  | lambda value => exact .pure hv.1 trivial
  | statements definition =>
    simp only
    split
    · split
      · refine (F.eagerCheck hv.1 hf fun _ h => absurd h (Option.not_mem_none _)).bind
          fun _ w hw _ => .pure hw.1 trivial
      · split
        · refine (methodReceiver hv.1 ((hu.trans hv).grows _ hid) _).bind
            fun receiver w hw hreceiver => ?_
          refine (F.eagerCheck hw.1 (hw.grows _ hf) fun _ h => ?_).bind
            fun _ x hx _ => .pure hx.1 trivial
          exact Option.mem_some.1 h ▸ hreceiver
        · exact .pure hv.1 trivial
    · exact .pure hv.1 trivial

theorem checkClassDef (hs : s.Founded) (definition : ClassDef Stmt) :
    founded.Yields c (Check.checkClassDef inner definition) (Check.checkClassDef other definition) s
      fun _ _ => True := by
  refine Yields.bind (.forIn hs fun e _ t hst => ?_) fun _ t hst _ => ?_
  · exact (F.expr e hst.1).bind fun _ u hu _ => .pure hu.1 trivial
  refine (F.checkBases hst.1 definition.bases).bind fun bases u hu hbases => ?_
  refine Yields.bind (.forIn hu.1 fun keyword _ v hv => ?_) fun _ v hv _ => .get_bind ?_
  · exact (F.expr keyword.value hv.1).bind fun _ w hw _ => .pure hw.1 trivial
  have hbases : ∀ base ∈ bases.1, v.Has (.cls base) := fun base hbase => hv.grows _ (hbases base hbase)
  -- All classes there are are older than the one that is added.
  refine (addClass hv.1 ⟨hbases, hbases, ?_, ?_⟩).bind fun id w hw hid => ?_
  · refine Table.all_ofList fun item hitem => ?_
    obtain ⟨name, -, rfl⟩ := List.mem_map.1 hitem
    exact .undefined
  · exact fun _ h => absurd h (Option.not_mem_none _)
  refine Yields.bind (inClassBody (Q := fun t (members : List (String × Binding)) =>
    ∀ member ∈ members, t.Backs member.2.type) hw.1 hid ?_ fun scope x hx hscope => ?_)
    fun members x hx hmembers => ?_
  · exact fun _ _ hst _ h member hmember => hst.backs (h member hmember)
  · refine (F.block definition.body hx.1).bind fun _ y hy _ => ?_
    refine (getScopes hy.1).bind fun scopes z hz h => .pure hz.1 ?_
    obtain ⟨rfl, rfl⟩ := h
    exact (hz.1.scopes.scope scope).bindings
  have hid := hx.grows _ hid
  refine (modifyArena hx.1 (hx.1.arena.modifyClass id fun info hinfo => ?_)).bind fun _ y hy _ => ?_
  · refine { hinfo with attributes := hinfo.attributes.insertMany fun item hitem => ?_ }
    obtain ⟨member, hmember, rfl⟩ := List.mem_map.1 hitem
    exact Arena.sound_slotOfType (hmembers member hmember)
  have hid := hy.grows _ hid
  refine (bindName hy.1 _ (.classObj hid) _).bind fun _ z hz _ => .read_bind ?_
  split
  · exact F.eagerCheckMethods hz.1 (hz.grows _ hid)
  · exact .pure hz.1 trivial

end Definitions

theorem holdToDeclared (hs : s.Founded) (f : FunctionInfo) (t : Ty) (confidence : Float) :
    founded.Yields c (Check.holdToDeclared f t confidence) (Check.holdToDeclared f t confidence) s
      fun _ _ => True := by
  unfold Check.holdToDeclared
  split
  · refine (getArena hs).bind fun arena u hu _ => ?_
    simp only
    split
    · exact report hu.1 _
    · exact .pure hu.1 trivial
  · exact .pure hs trivial

theorem recordReturn (hs : s.Founded) {type : Ty} (htype : s.Backs type) (confidence : Float) :
    founded.Yields c (Check.recordReturn type confidence) (Check.recordReturn type confidence) s
      fun _ _ => True := by
  refine .get_bind ?_
  split
  · refine (getArena hs).bind fun arena t hst _ => ?_
    refine (holdToDeclared hst.1 _ type confidence).bind fun _ u hu _ => .modify ?_ trivial
    have htype := (hst.trans hu).backs htype
    cases hframes : u.frames with
    | nil => exact .refl hu.1
    | cons frame rest =>
      have hall := hu.1.frames
      rw [hframes] at hall
      obtain ⟨hhead, hrest⟩ := List.forall_mem_cons.1 hall
      have hreturns := List.forall_mem_append.2 ⟨hhead.returns, List.forall_mem_singleton.2 htype⟩
      refine Session.moves_of_has rfl { hu.1 with frames := List.forall_mem_cons.2 ⟨?_, hrest⟩ }
      exact { hhead with returns := hreturns }
  · exact .pure hs trivial

section Statements

variable (F : Footing c inner other)
include F

theorem checkElse (hs : s.Founded) (body : List Stmt) :
    founded.Yields c (Check.checkElse inner body) (Check.checkElse other body) s
      fun _ _ => True := by
  unfold Check.checkElse
  split
  · exact inBranch hs fun _ ht => F.block body ht.1
  · exact .pure hs trivial

theorem checkReturn (hs : s.Founded) (value : Option Expr) :
    founded.Yields c (Check.checkReturn inner value) (Check.checkReturn other value) s
      fun _ _ => True := by
  cases value with
  | none => exact .read_bind (recordReturn hs (.prim _) _)
  | some value =>
    refine (F.expr value hs).bind fun type t hst htype => ?_
    refine (confidenceOf hst.1 value).bind fun confidence u hu _ => ?_
    exact recordReturn hu.1 (hu.backs htype) confidence

theorem checkAscribed (hs : s.Founded) (target ascribed : Expr) (value : Option Expr) :
    founded.Yields c (Check.checkAscribed inner target ascribed value)
      (Check.checkAscribed other target ascribed value) s fun _ _ => True := by
  refine (ascription hs ascribed).bind fun declared t hst hdeclared => ?_
  -- A target that is no name is assigned to as usual.
  have plain (e : Expr) :
      founded.Yields c
        (do
          let t ← inner.expr e
          Check.assign inner target t (← CheckM.confidenceOf e) .checked)
        (do
          let t ← other.expr e
          Check.assign other target t (← CheckM.confidenceOf e) .checked) t fun _ _ => True := by
    refine (F.expr e hst.1).bind fun type u hu htype => ?_
    refine (confidenceOf hu.1 e).bind fun confidence v hv _ => ?_
    exact F.assign hv.1 target (hv.backs htype) _ _
  cases target.form with
  | name name =>
    cases value with
    | none =>
      refine (getScopes hst.1).bind fun scopes u hu h => ?_
      split
      · exact setName hu.1 name (hu.backs hdeclared) _
      · exact .pure hu.1 trivial
    | some value =>
      refine (F.expr value hst.1).bind fun type u hu htype => ?_
      refine (confidenceOf hu.1 value).bind fun confidence v hv _ => .get_bind (.get_bind ?_)
      refine Yields.bind (Q := fun _ _ => True) (.modify ?_ trivial) fun _ w hw _ => reportAll hw.1 _
      refine hv.1.of_scopes ?_ (v.scopes.steady_addAscribed v.arena name declared type confidence)
      exact hv.1.scopes.addAscribed name ((hu.trans hv).backs hdeclared) (hv.backs htype) confidence
  | _ =>
    cases value with
    | none => exact .pure hst.1 trivial
    | some value => exact plain value

theorem caughtType (hs : s.Founded) (type : Option Expr) :
    founded.Yields c (Check.caughtType inner type) (Check.caughtType other type) s
      Session.Backs := by
  cases type with
  | none => exact .pure hs .any
  | some e =>
    refine (F.expr e hs).bind fun type t hst htype => ?_
    refine (instanceType? hst.1 htype).bind fun found u hu hfound => .pure hu.1 ?_
    cases found with
    | none => exact .any
    | some caught => exact hfound caught rfl

omit F in
theorem removeName (hs : s.Founded) (name : String) :
    founded.Yields c (CheckM.modifyScopes fun s => (s.remove name).2)
      (CheckM.modifyScopes fun s => (s.remove name).2) s fun _ _ => True :=
  modifyScopes hs (hs.scopes.remove name) (s.scopes.steady_remove name)

theorem checkHandler (hs : s.Founded) (handler : Handler Stmt) :
    founded.Yields c (Check.checkHandler inner handler) (Check.checkHandler other handler) s
      fun _ _ => True := by
  refine (modifyHub hs _).bind fun _ t hst _ => ?_
  refine (F.caughtType hst.1 handler.type).bind fun caught u hu hcaught => ?_
  cases handler.name with
  | none => exact F.block _ hu.1
  | some name =>
    refine (setName hu.1 name hcaught _).bind fun _ v hv _ => ?_
    exact (F.block _ hv.1).bind fun _ w hw _ => removeName hw.1 name

theorem checkTry (hs : s.Founded) (body : List Stmt) (handlers : List (Handler Stmt))
    (orelse finalbody : List Stmt) :
    founded.Yields c (Check.checkTry inner body handlers orelse finalbody)
      (Check.checkTry other body handlers orelse finalbody) s fun _ _ => True := by
  refine (suppressing hs fun _ ht => F.block body ht.1).bind fun _ t hst _ => ?_
  refine Yields.bind (.forIn hst.1 fun handler _ u hu => ?_) fun _ u hu _ => ?_
  · exact (F.checkHandler hu.1 handler).bind fun _ v hv _ => .pure hv.1 trivial
  · exact (F.block orelse hu.1).bind fun _ v hv _ => F.block finalbody hv.1

theorem enteredType (hs : s.Founded) {context : Ty} (hcontext : s.Backs context) :
    founded.Yields c (Check.enteredType inner context) (Check.enteredType other context) s
      Session.Backs := by
  cases context with
  | object id =>
    exact F.callSpecial_getD hs (hcontext.has_of_mentions (.object id)) _ sound_noArgs .any
  | _ => exact .pure hs hcontext

theorem checkWith (hs : s.Founded) (items : List WithItem) (body : List Stmt) :
    founded.Yields c (Check.checkWith inner items body) (Check.checkWith other items body) s
      fun _ _ => True := by
  refine Yields.bind (.forIn hs fun item _ t hst => ?_) fun _ t hst _ =>
    suppressing hst.1 fun _ ht => F.block body ht.1
  refine (F.expr item.context hst.1).bind fun context u hu hcontext => ?_
  cases item.vars with
  | none => exact .pure hu.1 trivial
  | some vars =>
    refine (F.enteredType hu.1 hcontext).bind fun entered v hv hentered => ?_
    refine (confidenceOf hv.1 item.context).bind fun confidence w hw _ => ?_
    exact (F.assign hw.1 vars (hw.backs hentered) confidence _).bind fun _ x hx _ =>
      .pure hx.1 trivial

theorem checkDelete (hs : s.Founded) (target : Expr) :
    founded.Yields c (Check.checkDelete inner target) (Check.checkDelete other target) s
      fun _ _ => True := by
  induction target using WellFounded.induction (measure (sizeOf : Expr → Nat)).wf
    generalizing s with
  | _ target ih =>
    have plain : founded.Yields c (inner.expr target >>= fun _ => pure ())
        (other.expr target >>= fun _ => pure ()) s fun _ _ => True :=
      (F.expr target hs).bind fun _ t hst _ => .pure hst.1 trivial
    rw [checkDelete.eq_def inner, checkDelete.eq_def other]
    rcases target with ⟨node, form, span⟩
    cases form with
    | name name => exact removeName hs name
    | member value attr =>
      refine (F.expr value hs).bind fun owner t hst _ => ?_
      exact modifyArena hst.1 (hst.1.arena.deleteAttribute owner attr)
    | tuple targets | list targets =>
      refine .forM hs fun target _ t hst => ?_
      exact ih target.1 (Expr.sizeOf_lt_of_mem_children target.2) hst.1
    | _ => exact plain

theorem evaluateAll (hs : s.Founded) (es : List Expr) :
    founded.Yields c (do for e in es do let _ ← inner.expr e) (do for e in es do let _ ← other.expr e)
      s fun _ _ => True := by
  refine Yields.bind (.forIn hs fun e _ t hst => ?_) fun _ t hst _ => .pure hst.1 trivial
  exact (F.expr e hst.1).bind fun _ u hu _ => .pure hu.1 trivial

theorem checkStmt (hs : s.Founded) (stmt : Stmt) :
    founded.Yields c (Check.checkStmt inner stmt) (Check.checkStmt other stmt) s
      fun _ _ => True := by
  refine (modifyHub hs _).bind fun _ t hst _ => ?_
  have ht := hst.1
  cases stmt.form with
  | expr value => exact (F.expr value ht).bind fun _ u hu _ => .pure hu.1 trivial
  | assign targets value =>
    refine (F.expr value ht).bind fun type u hu htype => ?_
    refine (confidenceOf hu.1 value).bind fun confidence v hv _ => ?_
    refine Yields.bind (.forIn hv.1 fun target _ w hw => ?_) fun _ w hw _ => .pure hw.1 trivial
    exact (F.assign hw.1 target ((hv.trans hw).backs htype) confidence _).bind fun _ x hx _ =>
      .pure hx.1 trivial
  | ascribe target ascribed value => exact F.checkAscribed ht target ascribed value
  | augAssign target op value =>
    refine (F.expr target ht).bind fun current u hu hcurrent => ?_
    refine (F.expr value hu.1).bind fun operand v hv hoperand => ?_
    refine (confidenceOf hv.1 target).bind fun p w hw _ => ?_
    refine (confidenceOf hw.1 value).bind fun q x hx _ => ?_
    have hcurrent := ((hv.trans hw).trans hx).backs hcurrent
    refine (F.binaryResult hx.1 op hcurrent ((hw.trans hx).backs hoperand) _).bind
      fun result y hy hresult => F.assign hy.1 target hresult _ _
  | ret value => exact F.checkReturn ht value
  | pass | brk | cont => exact .pure ht trivial
  | ifElse test body orelse | whileLoop test body orelse =>
    refine (inBranch ht fun u hu => ?_).bind fun _ u hu _ => F.checkElse hu.1 orelse
    exact (F.checkCondition hu.1 test).bind fun _ v hv _ => F.block body hv.1
  | forLoop target iter body orelse isAsync =>
    refine (F.expr iter ht).bind fun iterable u hu hiterable => ?_
    refine (F.iterationType hu.1 hiterable).bind fun element v hv helement => ?_
    refine (confidenceOf hv.1 iter).bind fun confidence w hw _ => ?_
    refine (inBranch hw.1 fun x hx => ?_).bind fun _ x hx _ => F.checkElse hx.1 orelse
    exact (F.assign hx.1 target ((hw.trans hx).backs helement) confidence _).bind
      fun _ y hy _ => F.block body hy.1
  | tryExcept body handlers orelse finalbody => exact F.checkTry ht body handlers orelse finalbody
  | withItems items body isAsync => exact F.checkWith ht items body
  | functionDef definition => exact F.checkFunctionDef ht definition
  | classDef definition => exact F.checkClassDef ht definition
  | importModules names =>
    refine Yields.bind (.forIn ht fun a _ u hu => ?_) fun _ u hu _ => .pure hu.1 trivial
    exact (importModule F.context hu.1 a).bind fun _ v hv _ => .pure hv.1 trivial
  | importFrom module names level => exact importFrom F.context ht module names
  | globalNames names =>
    refine Yields.bind (.forIn ht fun name _ u hu => ?_) fun _ u hu _ => .pure hu.1 trivial
    exact (modifyScopes hu.1 (hu.1.scopes.declareGlobal name)
      (u.scopes.steady_declareGlobal name)).bind fun _ v hv _ => .pure hv.1 trivial
  | nonlocalNames names =>
    refine Yields.bind (.forIn ht fun name _ u hu => ?_) fun _ u hu _ => .pure hu.1 trivial
    exact (modifyScopes hu.1 (hu.1.scopes.declareNonlocal name)
      (u.scopes.steady_declareNonlocal name)).bind fun _ v hv _ => .pure hv.1 trivial
  | delete targets =>
    refine Yields.bind (.forIn ht fun target _ u hu => ?_) fun _ u hu _ => .pure hu.1 trivial
    exact (F.checkDelete hu.1 target).bind fun _ v hv _ => .pure hv.1 trivial
  | assert test message =>
    refine (F.checkCondition ht test).bind fun _ u hu _ => ?_
    cases message with
    | none => exact .pure hu.1 trivial
    | some e =>
      rw [Option.forIn_some, Option.forIn_some]
      refine Yields.bind (Q := fun _ _ => True) (Yields.bind (Q := fun _ _ => True) ?_
        fun _ v hv _ => .pure hv.1 trivial) fun _ v hv _ => .pure hv.1 trivial
      exact (F.expr e hu.1).bind fun _ v hv _ => .pure hv.1 trivial
  | raise exc cause => exact F.evaluateAll ht _

theorem blockOver (hs : s.Founded) (body : List Stmt) :
    founded.Yields c (Check.blockOver inner body) (Check.blockOver other body) s
      fun _ _ => True := by
  refine Yields.bind (.forIn hs fun stmt _ t hst => ?_) fun _ t hst _ => flush hst.1
  refine (F.checkStmt hst.1 stmt).attempt.bind fun result u hu _ => ?_
  rcases result with stop | done
  · cases stop with
    | fault f => exact .get_bind ((warn hu.1 _).bind fun _ v hv _ => .pure hv.1 trivial)
    | exhausted =>
      refine Yields.bind (Q := fun _ _ => True) (.throw hu.1 trivial) fun _ v hv _ => ?_
      exact .pure hv.1 trivial
  · exact .pure hu.1 trivial

end Statements

end Discipline.Footing

end Credence

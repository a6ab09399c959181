import Credence.Check.Assign
import Credence.Check.Signature
import Credence.Proofs.Settling

namespace Credence

open Check

namespace Check.Settles

variable {c : Context}

theorem reportAll (findings : List Finding) :
    Settles c (CheckM.reportAll findings) (CheckM.reportAll findings) fun _ => True :=
  modifyHub _

theorem defaultProbability :
    Settles c CheckM.defaultProbability CheckM.defaultProbability fun _ => True :=
  .read_bind (.pure trivial)

theorem readAttribute {t : Ty} (ht : t.Settled) (name : String) (confidence : Float) :
    Settles c (CheckM.readAttribute t name confidence) (CheckM.readAttribute t name confidence)
      Ty.Held := by
  refine getArena.bind fun arena harena => ?_
  have hreading := harena.readAttribute name confidence ht
  exact (modifyArena fun _ _ => hreading.arena).bind fun _ _ =>
    (reportAll _).andPure hreading.held

theorem namedAscription (name : String) :
    Settles c (Check.namedAscription name) (Check.namedAscription name) Ty.Settled := by
  unfold Check.namedAscription
  simp only
  split
  · exact .pure (.prim _)
  · exact .pure (Ty.settled_empty _)
  · refine getScopes.bind fun scopes _ => ?_
    refine (withArena (Q := fun _ => True) fun _ ha =>
      ⟨Scopes.Settled.findDotted ha name, trivial⟩).bind fun found _ => ?_
    cases found with
    | classObj id => exact standIn id
    | _ => exact .pure .any

section Forms

variable {sub : Expr → CheckM Ty} (h : ∀ e, Settles c (sub e) (sub e) Ty.Settled)
include h

theorem firstAscription (arguments : List Expr) :
    Settles c (Check.firstAscription sub arguments) (Check.firstAscription sub arguments)
      Ty.Settled := by
  cases arguments with
  | nil => exact .pure .any
  | cons argument rest => exact h argument

theorem genericAscription (name : String) (arguments : List Expr) :
    Settles c (Check.genericAscription sub name arguments)
      (Check.genericAscription sub name arguments) Ty.Settled := by
  have hfirst := firstAscription h arguments
  have hall (es : List Expr) :
      Settles c (es.mapM sub) (es.mapM sub) fun ts => ∀ t ∈ ts, t.Settled :=
    .mapM fun e _ => h e
  unfold Check.genericAscription
  simp only
  split
  case h_3 | h_4 =>
    refine hfirst.bind fun t _ => ?_
    cases t with
    | object id => exact getArena.bind fun arena _ => .pure (.classObj _)
    | _ => exact .pure .any
  · exact hfirst.bind fun t ht =>
      .pure (Ty.Settled.stable.oneOf _ (by simp [ht, Ty.Settled.prim]))
  · exact (hall arguments).bind fun ts hts => .pure (Ty.Settled.stable.oneOf _ hts)
  · exact hfirst
  · exact hfirst
  · exact hfirst
  · split
    · refine hfirst.bind fun key hkey => (firstAscription h _).bind fun value hvalue => .pure ?_
      exact Ty.Settled.stable.dictOf (List.forall_mem_singleton.2 hkey)
        (List.forall_mem_singleton.2 hvalue)
    · exact (hall _).bind fun ts hts => .pure (Ty.Settled.stable.tupleOf hts)
    · exact hfirst.bind fun t ht =>
        .pure (Ty.Settled.stable.ofElts _ (List.forall_mem_singleton.2 ht))
    · exact .pure .any

theorem textAscription (text : String) :
    Settles c (Check.textAscription sub text) (Check.textAscription sub text) Ty.Settled := by
  unfold Check.textAscription
  split
  · exact .throw _
  · exact .pure .any
  · split
    · split
      · exact h _
      · exact .pure .any
    · exact .pure .any

theorem ascriptionOver (e : Expr) :
    Settles c (Check.ascriptionOver sub e) (Check.ascriptionOver sub e) Ty.Settled := by
  unfold Check.ascriptionOver
  cases e.form with
  | str text => exact textAscription h text
  | noneLiteral => exact .pure (.prim _)
  | name id | member value name =>
    simp only
    split
    · exact namedAscription _
    · exact .pure .any
  | subscript value index =>
    simp only
    split
    · exact genericAscription h _ _
    · exact .pure .any
  | binOp left op right =>
    cases op with
    | bitOr =>
      exact (h left).bind fun l hl => (h right).bind fun r hr =>
        .pure (Ty.settled_oneOf_pair hl.held hr.held)
    | _ => exact .pure .any
  | _ => exact .pure .any

end Forms

theorem ascription (e : Expr) :
    Settles c (Check.ascription e) (Check.ascription e) Ty.Settled := by
  -- By induction on the fuel.
  suffices ∀ (n : Nat) (e : Expr),
      Settles c (Check.ascriptionUpTo n e) (Check.ascriptionUpTo n e) Ty.Settled from this _ e
  intro n
  induction n with
  | zero => exact fun e => .throw _
  | succ n ih => exact fun e => ascriptionOver ih e

theorem instanceType? (classes : Ty) :
    Settles c (Check.instanceType? classes) (Check.instanceType? classes) fun found =>
      ∀ t ∈ found, t.Settled := by
  -- By induction on the size of the class arguments.
  have nothing : ∀ t ∈ (none : Option Ty), t.Settled := fun _ h => absurd h (Option.not_mem_none _)
  induction classes using WellFounded.induction (measure (sizeOf : Ty → Nat)).wf with
  | _ classes ih =>
    rw [instanceType?.eq_def]
    cases classes with
    | classObj id =>
      exact (standIn id).bind fun object hobject => .pure fun _ h => Option.mem_some.1 h ▸ hobject
    | builtin b =>
      simp only
      split
      · exact .pure fun _ h => Option.mem_some.1 h ▸ .prim _
      · exact .pure fun _ h => Option.mem_some.1 h ▸ Ty.settled_empty _
      · exact .pure nothing
    | container model =>
      simp only
      split
      · refine Settles.bind (.mapM fun t _ => ih t.1 (Ty.sizeOf_lt_of_mem_elts t.2))
          fun found hfound => .pure fun t ht => ?_
        split at ht
        · exact nothing t ht
        · refine Option.mem_some.1 ht ▸ Ty.Settled.stable.oneOf _ fun t ht => ?_
          obtain ⟨o, ho, hid⟩ := List.mem_filterMap.1 ht
          exact hfound o ho t hid
      · exact .pure nothing
    | _ => exact .pure nothing

end Check.Settles

/-- What lies inside is checked in settled sessions: they stay settled, and types are settled. -/
structure Check.Settling (c : Context) (inner other : Inner) : Prop where
  context : c.Settled
  expr : ∀ e, Settles c (inner.expr e) (other.expr e) Ty.Settled
  block : ∀ b, Settles c (inner.block b) (other.block b) fun _ => True
  call : ∀ {receiver : Option Ty} {args : CallArgs} (id : FunctionId),
    (∀ t ∈ receiver, t.Settled) → args.Settled →
    Settles c (inner.call id receiver args) (other.call id receiver args) Ty.Settled

namespace Check.Settling

open Settles
open Ty.Settled (stable)

variable {c : Context} {inner other : Inner}

theorem settled_noArgs : CallArgs.Settled {} :=
  ⟨fun _ h => absurd h List.not_mem_nil, fun _ h => absurd h List.not_mem_nil⟩

theorem settled_oneArg {t : Ty} (ht : t.Settled) : CallArgs.Settled { positional := [t] } :=
  ⟨List.forall_mem_singleton.2 ht, fun _ h => absurd h List.not_mem_nil⟩

theorem settled_receiver {t : Ty} (ht : t.Settled) : ∀ s ∈ some t, s.Settled :=
  fun _ h => Option.mem_some.1 h ▸ ht

theorem settled_noReceiver : ∀ s ∈ (none : Option Ty), s.Settled :=
  fun _ h => absurd h (Option.not_mem_none _)

theorem recursiveResult (id : FunctionId) {f : FunctionInfo} (hf : f.Settled) :
    Settles c (Check.recursiveResult id f) (Check.recursiveResult id f) Ty.Settled := by
  unfold Check.recursiveResult
  split
  · rename_i declared hdeclared
    exact .pure (hf.declared? declared hdeclared)
  · refine .get_bind fun s hs => ?_
    simp only
    split
    · refine .pure ?_
      cases hlast : f.lastReturn with
      | none => exact .any
      | some t => exact hf.lastReturn t hlast
    · refine .pure (stable.oneOf _ fun t ht => ?_)
      cases hframe : s.frames.find? (·.function == id) with
      | none =>
        rw [hframe] at ht
        exact absurd ht List.not_mem_nil
      | some frame =>
        rw [hframe] at ht
        exact (hs.frames frame (List.mem_of_find?_eq_some hframe)).returns t ht

section Bodies

variable (F : Settling c inner other)
include F

theorem evaluateBody (body : FunctionBody) :
    Settles c (Check.evaluateBody inner body) (Check.evaluateBody other body) fun value? =>
      ∀ value ∈ value?, value.Settled := by
  cases body with
  | statements definition => exact (F.block _).andPure settled_noReceiver
  | lambda value => exact (F.expr value).map fun t ht => settled_receiver ht

theorem runBody (id : FunctionId) (f : FunctionInfo) {arguments : List (String × Ty)}
    (harguments : ∀ argument ∈ arguments, argument.2.Settled) :
    Settles c (Check.runBody inner id f arguments) (Check.runBody other id f arguments)
      Ty.Settled := by
  have hframe : Frame.Settled { function := id } :=
    ⟨fun _ h => absurd h List.not_mem_nil, fun _ h => absurd h List.not_mem_nil⟩
  refine .get_bind fun s _ => (modifyHub _).bind fun _ _ => ?_
  refine Settles.bind (Q := fun _ => True) (.modifyGet fun _ hs => ?_) fun _ _ => ?_
  · exact ⟨{ hs with scopes := hs.scopes.enterFunction _ _ harguments }, trivial⟩
  refine Settles.bind (.modify fun _ hs => ?_) fun _ _ => ?_
  · exact { hs with frames := List.forall_mem_cons.2 ⟨hframe, hs.frames⟩ }
  refine (F.evaluateBody f.body).attempt.bind fun outcome houtcome => .get_bind fun t ht => ?_
  have hlast : (t.frames.head?.getD { function := id }).Settled := by
    cases hframes : t.frames with
    | nil => exact hframe
    | cons frame rest => exact ht.frames frame (hframes ▸ List.mem_cons_self)
  refine Settles.bind (.modify fun _ hs => ?_) fun _ _ => ?_
  · exact { hs with frames := fun frame hframe => hs.frames frame (List.mem_of_mem_tail hframe) }
  refine (modifyScopes fun s hs => hs.of_all s.all_exitFunction).bind fun _ _ => ?_
  refine (modifyHub _).bind fun _ _ => Settles.bind (.modify fun _ hs => ?_) fun _ _ => ?_
  · exact ⟨hs.arena, hs.scopes, hs.frames, hs.memo⟩
  rcases outcome with stop | _ | value
  · exact .throw stop
  · exact .pure (stable.returnedType hlast.returns hlast.yields)
  · exact .pure (houtcome _ rfl value rfl)

theorem resultOver (id : FunctionId) {f : FunctionInfo} (hf : f.Settled)
    {arguments : List (String × Ty)} (harguments : ∀ argument ∈ arguments, argument.2.Settled) :
    Settles c (Check.resultOver inner id f arguments) (Check.resultOver other id f arguments)
      Ty.Settled := by
  refine getScopes.bind fun scopes _ => ?_
  simp only
  split
  · rename_i known hknown
    exact .pure (hf.cached? hknown)
  · refine .get_bind fun s _ => ?_
    split
    · exact recursiveResult id hf
    · refine Settles.bind (.modify fun _ hs => ?_) fun _ _ => ?_
      · exact ⟨hs.arena, hs.scopes, hs.frames, hs.memo⟩
      refine (F.runBody id f harguments).bind fun inferred hinferred => ?_
      have hresult : (f.declared?.getD inferred).Settled := by
        cases hdeclared : f.declared? with
        | none => exact hinferred
        | some declared => exact hf.declared? declared hdeclared
      exact (modifyArena fun _ ha => ha.modifyFunction id fun _ hg => hg.remember _ hresult).andPure
        hresult

theorem callOver {receiver : Option Ty} {args : CallArgs} (id : FunctionId)
    (hreceiver : ∀ t ∈ receiver, t.Settled) (hargs : args.Settled) :
    Settles c (Check.callOver inner id receiver args) (Check.callOver other id receiver args)
      Ty.Settled := by
  refine getArena.bind fun arena harena => .read_bind ?_
  have hf := harena.function id
  refine (reportAll _).bind fun _ _ => ?_
  split
  · refine .pure ?_
    cases hdeclared : (arena.functionAt id).declared? with
    | none => exact .any
    | some declared => exact hf.declared? declared hdeclared
  · exact F.resultOver id hf
      (hf.bindArguments arena _ hreceiver hargs.positional hargs.keywords)

end Bodies

section Calls

variable (F : Settling c inner other)
include F

theorem callSpecial (object : ObjectId) (name : String) {args : CallArgs} (hargs : args.Settled) :
    Settles c (Check.callSpecial inner object name args) (Check.callSpecial other object name args)
      fun result => ∀ t ∈ result, t.Settled := by
  refine getArena.bind fun arena _ => (classLookup _ name).bind fun slot _ => ?_
  rcases slot with _ | _ | f
  · exact .pure settled_noReceiver
  · exact .pure settled_noReceiver
  · refine getArena.bind fun arena _ => (F.call f ?_ hargs).bind fun result hresult =>
      .pure (settled_receiver hresult)
    split
    · exact settled_receiver (.object _)
    · exact settled_receiver (.classObj _)
    · exact settled_noReceiver

theorem callSpecialOf (value : Ty) (name : String) {args : CallArgs} (hargs : args.Settled) :
    Settles c (Check.callSpecialOf inner value name args) (Check.callSpecialOf other value name args)
      fun result => ∀ t ∈ result, t.Settled := by
  cases value with
  | object id => exact F.callSpecial id name hargs
  | _ => exact .pure settled_noReceiver

theorem callSpecial_getD (object : ObjectId) (name : String) {args : CallArgs} (hargs : args.Settled) :
    Settles c (do return (← Check.callSpecial inner object name args).getD .any)
      (do return (← Check.callSpecial other object name args).getD .any) Ty.Settled := by
  refine (F.callSpecial object name hargs).bind fun result hresult => .pure ?_
  cases result with
  | none => exact .any
  | some t => exact hresult t rfl

theorem madeByClass (id : ClassId) {args : CallArgs} (hargs : args.Settled) :
    Settles c (Check.madeByClass inner id args) (Check.madeByClass other id args) fun _ => True := by
  refine (classLookup id _).bind fun slot _ => ?_
  rcases slot with _ | _ | f
  · exact .pure trivial
  · exact .pure trivial
  · refine (F.call f (settled_receiver (.classObj id)) hargs).bind fun made _ => ?_
    cases made with
    | object object => exact getArena.bind fun _ _ => .pure trivial
    | _ => exact .pure trivial

theorem initialise (id : ClassId) {args : CallArgs} (hargs : args.Settled) (object : ObjectId)
    (isMade : Bool) :
    Settles c (Check.initialise inner id args object isMade)
      (Check.initialise other id args object isMade) fun _ => True := by
  refine (classLookup id _).bind fun slot _ => ?_
  rcases slot with _ | _ | f
  case some.function => exact (F.call f (settled_receiver (.object object)) hargs).andPure trivial
  all_goals
    refine getArena.bind fun arena _ => ?_
    simp only
    split
    · exact defaultProbability.bind fun _ _ => report _
    · exact .pure trivial

theorem instantiate (id : ClassId) {args : CallArgs} (hargs : args.Settled) :
    Settles c (Check.instantiate inner id args) (Check.instantiate other id args) Ty.Settled := by
  refine (F.madeByClass id hargs).bind fun made _ => ?_
  cases made with
  | some object => exact (F.initialise id hargs object true).andPure (Ty.Settled.object object)
  | none =>
    refine (addObject id).bind fun object _ => ?_
    exact (F.initialise id hargs object false).andPure (Ty.Settled.object object)

/-- By induction on the size of the callee. What is undefined can be called too, and gives anything. -/
theorem callType {callee : Ty} (hcallee : callee.Held) {args : CallArgs} (hargs : args.Settled) :
    Settles c (Check.callType inner callee args) (Check.callType other callee args) Ty.Settled := by
  induction callee using WellFounded.induction (measure (sizeOf : Ty → Nat)).wf with
  | _ callee ih =>
    rw [callType.eq_def inner, callType.eq_def other]
    cases callee with
    | union u =>
      refine Settles.bind (.mapM fun t _ => ?_) fun results hresults =>
        .pure (stable.oneOf _ hresults)
      exact ih t.1 (Ty.sizeOf_lt_of_mem_union t.2) ((hcallee.settled rfl).ofUnion t.1 t.2).held
    | builtin b =>
      have hresult := stable.resolve (hcallee.settled rfl).ret hargs.positional
      simp only
      split
      · exact (warn _).andPure hresult
      · exact .pure hresult
    | function id =>
      refine getArena.bind fun arena _ => F.call id (fun receiver hreceiver => ?_) hargs
      split at hreceiver
      · exact settled_receiver (.classObj _) receiver hreceiver
      · exact settled_noReceiver receiver hreceiver
    | method object id => exact F.call id (settled_receiver (.object object)) hargs
    | classObj id => exact F.instantiate id hargs
    | object id => exact F.callSpecial_getD id _ hargs
    | _ => exact .pure .any

theorem iterationType {iterable : Ty} (hiterable : iterable.Settled) :
    Settles c (Check.iterationType inner iterable) (Check.iterationType other iterable)
      Ty.Settled := by
  -- By induction on the size of what is iterated over.
  induction iterable using WellFounded.induction (measure (sizeOf : Ty → Nat)).wf with
  | _ iterable ih =>
    rw [iterationType.eq_def inner, iterationType.eq_def other]
    cases iterable with
    | object id =>
      refine (F.callSpecial id _ settled_noArgs).bind fun result hresult => ?_
      rcases result with _ | result
      · exact .pure .any
      · have hresult := hresult result rfl
        cases result with
        | object iterator => exact F.callSpecial_getD iterator _ settled_noArgs
        | _ => exact .pure (stable.elementType hresult)
    | union u =>
      refine Settles.bind (.mapM fun t _ => ?_) fun elements helements =>
        .pure (stable.oneOf _ helements)
      exact ih t.1 (Ty.sizeOf_lt_of_mem_union t.2) (hiterable.ofUnion t.1 t.2)
    | _ => exact .pure (stable.elementType hiterable)

end Calls

section Assignments

variable (F : Settling c inner other)
include F

theorem rebindContainer (e : Expr) {grown : Ty} (hgrown : grown.Settled) :
    Settles c (Check.rebindContainer inner e grown) (Check.rebindContainer other e grown)
      fun _ => True := by
  unfold Check.rebindContainer
  cases e.form with
  | name name => exact modifyScopes fun _ hs => hs.update name hgrown
  | member value attr =>
    exact (F.expr value).bind fun owner _ =>
      modifyArena fun _ ha => ha.replaceAttribute owner attr hgrown
  | _ => exact .pure trivial

theorem storeItem (container index : Expr) {value : Ty} (hvalue : value.Settled) :
    Settles c (Check.storeItem inner container index value)
      (Check.storeItem other container index value) fun _ => True := by
  refine (F.expr container).bind fun holder hholder => (F.expr index).bind fun place hplace => ?_
  cases holder with
  | container model =>
    simp only
    split
    · rename_i grown hgrown
      split
      · exact F.rebindContainer _ (stable.withItem? hholder hplace hvalue hgrown)
      · exact .pure trivial
    · exact .pure trivial
  | object id =>
    have hargs : CallArgs.Settled { positional := [place, value] } :=
      ⟨by simp [hplace, hvalue], fun _ h => absurd h List.not_mem_nil⟩
    exact (F.callSpecial id _ hargs).andPure trivial
  | _ => exact .pure trivial

theorem assign (target : Expr) {value : Ty} (hvalue : value.Settled) (confidence : Float)
    (mode : BindMode) :
    Settles c (Check.assign inner target value confidence mode)
      (Check.assign other target value confidence mode) fun _ => True := by
  -- By induction on the size of the target.
  induction target using WellFounded.induction (measure (sizeOf : Expr → Nat)).wf
    generalizing value with
  | _ target ih =>
    -- The targets in a tuple or a list, without their stars.
    have parts {targets : List Expr} (h : ∀ k ∈ targets, k ∈ target.form.children) :
        Settles c
          ((distribute targets value).attach.forM fun item =>
            Check.assign inner item.1.1 item.1.2 confidence mode)
          ((distribute targets value).attach.forM fun item =>
            Check.assign other item.1.1 item.1.2 confidence mode) fun _ => True := by
      refine .forM fun item _ => ?_
      obtain ⟨k, hm, hi⟩ := mem_distribute item.2
      have hlt : sizeOf k < sizeOf target := Expr.sizeOf_lt_of_mem_children (h k hm)
      have hitem := stable.distribute hvalue item.2
      rcases hi with hi | hi
      · exact ih _ (hi ▸ hlt) hitem
      · exact ih _ (hi ▸ Nat.lt_of_le_of_lt k.sizeOf_unstarred_le hlt) hitem
    rw [assign.eq_def inner, assign.eq_def other]
    rcases target with ⟨node, form, span⟩
    cases form with
    | name name =>
      cases mode with
      | checked => exact bindName name hvalue confidence
      | fresh => exact setName name hvalue confidence
    | member owner attr =>
      refine (F.expr owner).bind fun holder _ => getArena.bind fun arena harena => ?_
      have hwritten := harena.setAttribute holder hvalue attr
      refine (modifyArena fun _ _ => hwritten).bind fun _ _ => ?_
      split
      · exact .pure trivial
      · exact .throw _
    | subscript container index => exact F.storeItem container index hvalue
    | tuple targets => exact parts fun k hk => hk
    | list targets => exact parts fun k hk => hk
    | starred starred =>
      have h : starred ∈ (ExprForm.starred starred).children := by simp [ExprForm.children]
      exact ih starred (Expr.sizeOf_lt_of_mem_children h)
        (stable.listOf (Ty.Stable.known (stable.elementType hvalue)))
    | _ => exact .throw _

theorem paramInfo (p : Param Expr) (default? : Option Expr) :
    Settles c (Check.paramInfo inner p default?) (Check.paramInfo other p default?)
      ParamInfo.Settled := by
  refine Settles.bind (.optionMapM fun e _ => Settles.ascription e) fun ascribed hascribed => ?_
  refine Settles.bind (.optionMapM fun e _ => F.expr e) fun default hdefault => ?_
  exact .pure ⟨hascribed, hdefault⟩

theorem signatureOf (params : Params Expr) :
    Settles c (Check.signatureOf inner params) (Check.signatureOf other params)
      Signature.Settled := by
  refine Settles.bind (.mapM fun p _ => F.paramInfo p.1 _) fun args hargs => ?_
  refine Settles.bind (.optionMapM fun p _ => F.paramInfo p none) fun vararg hvararg => ?_
  refine Settles.bind (.mapM fun p _ => F.paramInfo p.1 _) fun kwonly hkwonly => ?_
  refine Settles.bind (.optionMapM fun p _ => F.paramInfo p none) fun kwarg hkwarg =>
    .pure fun p hp => ?_
  simp only [Signature.all, List.mem_append, Option.mem_toList] at hp
  rcases hp with ((hp | hp) | hp) | hp
  · exact hargs p hp
  · exact hvararg p hp
  · exact hkwonly p hp
  · exact hkwarg p hp

end Assignments

end Check.Settling

end Credence

import Credence.Check.Assign
import Credence.Check.Signature
import Credence.Proofs.Arguments
import Credence.Proofs.Intake

namespace Credence

open Check

namespace FunctionInfo

variable {has : Entry → Prop} {f : FunctionInfo}

theorem sound_bindArguments (hf : f.signature.Sound has) (a : Arena) (probability : Float)
    {receiver : Option Ty} (hreceiver : ∀ t ∈ receiver, t.Sound has) {args : CallArgs}
    (hargs : args.Sound has) :
    ∀ argument ∈ (f.bindArguments a probability receiver args).1, argument.2.Sound has := by
  refine Ty.Sound.stable.bindArguments (fun p hp => ?_) a probability hreceiver hargs.positional hargs.keywords
  exact ⟨(hf p hp).ascribed, (hf p hp).default⟩

theorem Sound.sound_declared? (hf : f.Sound has) : ∀ t ∈ f.declared?, t.Sound has :=
  fun t ht => hf.declaredReturn t (Option.mem_filter_iff.1 ht).1

theorem sound_returnedType {frame : Frame} (h : frame.Sound has) :
    (f.returnedType frame).Sound has :=
  Ty.Sound.stable.returnedType h.returns h.yields

theorem sound_capturedView {scopes : Scopes} (h : scopes.Sound has) :
    ∀ o ∈ f.capturedView scopes, ∀ t ∈ o, t.Sound has := by
  intro o ho t ht
  obtain ⟨name, -, rfl⟩ := List.mem_map.1 ho
  obtain ⟨b, hb, rfl⟩ := Option.map_eq_some_iff.1 ht
  exact h.of_lookupFrom hb

theorem sound_cached? (hf : f.Sound has) {key : CallKey} {t : Ty} (h : f.cached? key = some t) :
    t.Sound has := by
  obtain ⟨call, hcall, rfl⟩ := Option.map_eq_some_iff.1 h
  exact (hf.calls call (List.mem_of_find?_eq_some hcall)).2

theorem Sound.remember (hf : f.Sound has) {key : CallKey} (hkey : key.Sound has) {result : Ty}
    (hresult : result.Sound has) : (f.remember key result).Sound has :=
  { hf with
    lastReturn := fun _ ht => Option.mem_some.1 ht ▸ hresult
    calls := List.forall_mem_append.2
      ⟨fun call hcall => hf.calls call (List.mem_filter.1 hcall).1,
        List.forall_mem_singleton.2 ⟨hkey, hresult⟩⟩ }

end FunctionInfo

namespace Discipline.Founded

open Yields

variable {c : Context} {s : Session}

theorem namedAscription (hs : s.Founded) (name : String) :
    founded.Yields c (Check.namedAscription name) (Check.namedAscription name) s Session.Backs := by
  unfold Check.namedAscription
  simp only
  split
  · exact .pure hs (.prim _)
  · exact .pure hs (Ty.sound_empty _)
  · refine (getScopes hs).bind fun scopes t hst h => ?_
    obtain ⟨rfl, rfl⟩ := h
    have hfound := hs.scopes.findDotted hs.arena name
    refine (withArena (Q := t.Backs) hs hfound.2 hfound.1).bind fun found u htu hu => ?_
    cases found with
    | classObj id => exact standIn htu.1 (htu.grows _ (hu.has_of_mentions (.classObj id)))
    | _ => exact .pure htu.1 .any

section Forms

variable {sub : Expr → CheckM Ty}
  (h : ∀ {s : Session} (e : Expr), s.Founded → founded.Yields c (sub e) (sub e) s Session.Backs)
include h

theorem firstAscription (hs : s.Founded) (arguments : List Expr) :
    founded.Yields c (Check.firstAscription sub arguments) (Check.firstAscription sub arguments) s
      Session.Backs := by
  cases arguments with
  | nil => exact .pure hs .any
  | cons argument rest => exact h argument hs

theorem ascriptions (hs : s.Founded) (arguments : List Expr) :
    founded.Yields c (arguments.mapM sub) (arguments.mapM sub) s
      fun t types => ∀ type ∈ types, t.Backs type :=
  .mapM hs lasting_backs fun e _ _ hst => h e hst.1

theorem genericAscription (hs : s.Founded) (name : String) (arguments : List Expr) :
    founded.Yields c (Check.genericAscription sub name arguments)
      (Check.genericAscription sub name arguments) s Session.Backs := by
  have hfirst := firstAscription h hs arguments
  unfold Check.genericAscription
  simp only
  split
  case h_3 | h_4 =>
    refine hfirst.bind fun t u hsu ht => ?_
    cases t with
    | object id =>
      refine (getArena hsu.1).bind fun arena v huv h => ?_
      obtain ⟨rfl, rfl⟩ := h
      exact .pure huv.1 (.classObj (huv.1.arena.classOf (ht.has_of_mentions (.object id))))
    | _ => exact .pure hsu.1 .any
  · exact hfirst.bind fun t u hsu ht =>
      .pure hsu.1 (Ty.sound_oneOf _ (by simp [ht, Ty.Sound.prim]))
  · exact (ascriptions h hs arguments).bind fun ts u hsu hts => .pure hsu.1 (Ty.sound_oneOf _ hts)
  · exact hfirst
  · exact hfirst
  · exact hfirst
  · split
    · refine hfirst.bind fun key t hst hkey => ?_
      refine (firstAscription h hst.1 _).bind fun value u htu hvalue => .pure htu.1 ?_
      exact Ty.sound_dictOf (List.forall_mem_singleton.2 (htu.backs hkey))
        (List.forall_mem_singleton.2 hvalue)
    · exact (ascriptions h hs _).bind fun ts u hsu hts => .pure hsu.1 (Ty.sound_tupleOf hts)
    · exact hfirst.bind fun t u hsu ht =>
        .pure hsu.1 (Ty.Sound.stable.ofElts _ (List.forall_mem_singleton.2 ht))
    · exact .pure hs .any

theorem textAscription (hs : s.Founded) (text : String) :
    founded.Yields c (Check.textAscription sub text) (Check.textAscription sub text) s
      Session.Backs := by
  unfold Check.textAscription
  split
  · exact .throw hs trivial
  · exact .pure hs .any
  · split
    · split
      · exact h _ hs
      · exact .pure hs .any
    · exact .pure hs .any

theorem ascriptionOver (hs : s.Founded) (e : Expr) :
    founded.Yields c (Check.ascriptionOver sub e) (Check.ascriptionOver sub e) s Session.Backs := by
  unfold Check.ascriptionOver
  cases e.form with
  | str text => exact textAscription h hs text
  | noneLiteral => exact .pure hs (.prim _)
  | name id | member value name =>
    simp only
    split
    · exact namedAscription hs _
    · exact .pure hs .any
  | subscript value index =>
    simp only
    split
    · exact genericAscription h hs _ _
    · exact .pure hs .any
  | binOp left op right =>
    cases op with
    | bitOr =>
      refine (h left hs).bind fun l t hst hl => (h right hst.1).bind fun r u htu hr => ?_
      exact .pure htu.1 (Ty.sound_oneOf_pair (htu.backs hl) hr)
    | _ => exact .pure hs .any
  | _ => exact .pure hs .any

end Forms

theorem ascription (hs : s.Founded) (e : Expr) :
    founded.Yields c (Check.ascription e) (Check.ascription e) s Session.Backs := by
  suffices ∀ (n : Nat) {s : Session} (e : Expr), s.Founded →
      founded.Yields c (Check.ascriptionUpTo n e) (Check.ascriptionUpTo n e) s Session.Backs from
    this _ e hs
  intro n
  induction n with
  | zero => exact fun e hs => .throw hs trivial
  | succ n ih => exact fun e hs => ascriptionOver ih hs e

end Discipline.Founded

/-- What lies inside is checked on a sound footing: sessions stay sound, and types are sound. -/
structure Discipline.Footing (c : Context) (inner other : Inner) : Prop where
  context : c.Sound
  expr : ∀ {s : Session} (e : Expr), s.Founded →
    founded.Yields c (inner.expr e) (other.expr e) s Session.Backs
  block : ∀ {s : Session} (b : List Stmt), s.Founded →
    founded.Yields c (inner.block b) (other.block b) s fun _ _ => True
  call : ∀ {s : Session} {id : FunctionId} {receiver : Option Ty} {args : CallArgs}, s.Founded →
    s.Has (.function id) → (∀ t ∈ receiver, s.Backs t) → args.Sound s.Has →
    founded.Yields c (inner.call id receiver args) (other.call id receiver args) s Session.Backs

namespace Discipline.Footing

open Yields Founded

variable {c : Context} {inner other : Inner} {s : Session}

theorem sound_noArgs {has : Entry → Prop} : CallArgs.Sound has {} :=
  ⟨fun _ h => absurd h List.not_mem_nil, fun _ h => absurd h List.not_mem_nil⟩

theorem sound_oneArg {has : Entry → Prop} {t : Ty} (ht : t.Sound has) :
    CallArgs.Sound has { positional := [t] } :=
  ⟨List.forall_mem_singleton.2 ht, fun _ h => absurd h List.not_mem_nil⟩

theorem recursiveResult (hs : s.Founded) (id : FunctionId) {f : FunctionInfo} (hf : f.Sound s.Has) :
    founded.Yields c (Check.recursiveResult id f) (Check.recursiveResult id f) s Session.Backs := by
  unfold Check.recursiveResult
  split
  · rename_i declared hdeclared
    exact .pure hs (hf.sound_declared? declared hdeclared)
  · refine .get_bind ?_
    simp only
    split
    · refine .pure hs ?_
      cases hlast : f.lastReturn with
      | none => exact .any
      | some t => exact hf.lastReturn t hlast
    · refine .pure hs (Ty.sound_oneOf _ fun t ht => ?_)
      cases hframe : s.frames.find? (·.function == id) with
      | none =>
        rw [hframe] at ht
        exact absurd ht List.not_mem_nil
      | some frame =>
        rw [hframe] at ht
        exact (hs.frames frame (List.mem_of_find?_eq_some hframe)).returns t ht

section Bodies

variable (F : Footing c inner other)
include F

theorem evaluateBody (hs : s.Founded) (body : FunctionBody) :
    founded.Yields c (Check.evaluateBody inner body) (Check.evaluateBody other body) s
      fun t value? => ∀ value ∈ value?, t.Backs value := by
  cases body with
  | statements definition =>
    exact (F.block _ hs).bind fun _ t hst _ => .pure hst.1 fun _ h => absurd h (Option.not_mem_none _)
  | lambda value => exact (F.expr value hs).map fun t u _ ht r hr => Option.mem_some.1 hr ▸ ht

omit F in
theorem founded_entering (hs : s.Founded) {id : FunctionId} (hid : s.Has (.function id))
    (f : FunctionInfo) {arguments : List (String × Ty)}
    (harguments : ∀ argument ∈ arguments, s.Backs argument.2) :
    founded.Moves s (s.entering id f arguments) := by
  have henter := hs.enterFunction f.name f.captured harguments
  refine henter.trans (Session.moves_of_has rfl { henter.1 with frames := ?_ })
  refine List.forall_mem_cons.2 ⟨⟨henter.grows _ hid, ?_, ?_⟩, henter.1.frames⟩
  · exact fun _ h => absurd h List.not_mem_nil
  · exact fun _ h => absurd h List.not_mem_nil

omit F in
theorem founded_leaving {t : Session} (ht : t.Founded) (s : Session) (f : FunctionInfo) :
    founded.Moves t (s.leaving t f) := by
  refine Session.moves_of_has (World.contains_of_size t.scopes.size_exitFunction)
    { ht with frames := ?_, scopes := ht.scopes.exitFunction }
  exact fun frame hframe => ht.frames frame (List.mem_of_mem_tail hframe)

theorem runBody (hs : s.Founded) {id : FunctionId} (hid : s.Has (.function id)) (f : FunctionInfo)
    {arguments : List (String × Ty)} (harguments : ∀ argument ∈ arguments, s.Backs argument.2) :
    founded.Yields c (Check.runBody inner id f arguments) (Check.runBody other id f arguments) s
      Session.Backs := by
  have hentering := founded_entering hs hid f harguments
  have hx := F.evaluateBody hentering.1 f.body
  have hinner := Check.outcome_runBody inner id f arguments c s
  have hother := Check.outcome_runBody other id f arguments c s
  rw [← hx.same] at hother
  have hmoves := hx.moves
  have hresult := hx.result
  rcases hout : (Check.evaluateBody inner f.body).outcome c (s.entering id f arguments) with
    ⟨e | value?, t⟩
  · rw [hout] at hinner hother hmoves
    have hback := (hentering.trans hmoves).trans (founded_leaving hmoves.1 s f)
    refine ⟨⟨hinner.trans hother.symm, by rwa [hinner], fun _ _ => trivial⟩, fun a u hu => ?_⟩
    rw [hinner] at hu
    cases hu
  · rw [hout] at hinner hother hmoves
    have hleave := founded_leaving hmoves.1 s f
    have hback := (hentering.trans hmoves).trans hleave
    refine ⟨⟨hinner.trans hother.symm, by rwa [hinner], fun _ _ => trivial⟩, fun a u hu => ?_⟩
    rw [hinner] at hu
    cases hu
    refine hleave.backs ?_
    cases value? with
    | some value => exact hresult _ _ hout value rfl
    | none =>
      refine FunctionInfo.sound_returnedType ?_
      cases hframes : t.frames with
      | nil =>
        have hid : t.Has (.function id) := (hentering.trans hmoves).grows _ hid
        exact ⟨hid, fun _ h => absurd h List.not_mem_nil, fun _ h => absurd h List.not_mem_nil⟩
      | cons frame rest => exact hmoves.1.frames frame (hframes ▸ List.mem_cons_self)

theorem resultOver (hs : s.Founded) {id : FunctionId} (hid : s.Has (.function id))
    {f : FunctionInfo} (hf : f.Sound s.Has) {arguments : List (String × Ty)}
    (harguments : ∀ argument ∈ arguments, s.Backs argument.2) :
    founded.Yields c (Check.resultOver inner id f arguments)
      (Check.resultOver other id f arguments) s Session.Backs := by
  refine (getScopes hs).bind fun scopes t hst h => ?_
  obtain ⟨rfl, rfl⟩ := h
  have hkey : CallKey.Sound t.Has ⟨arguments, f.capturedView t.scopes⟩ :=
    ⟨harguments, FunctionInfo.sound_capturedView hs.scopes⟩
  simp only
  split
  · rename_i known hknown
    exact .pure hs (FunctionInfo.sound_cached? hf hknown)
  · refine .get_bind ?_
    split
    · exact recursiveResult hs id hf
    · rename_i guard _
      refine Yields.bind (of_has (f := fun s => { s with guard }) rfl { hs with })
        fun _ u hu _ => ?_
      refine (F.runBody hu.1 (hu.grows _ hid) f fun a ha => hu.backs (harguments a ha)).bind
        fun inferred v hv hinferred => ?_
      have hmono := (hu.trans hv).grows
      have hf := hf.mono hmono
      have hresult : v.Backs (f.declared?.getD inferred) := by
        cases hdeclared : f.declared? with
        | none => exact hinferred
        | some declared => exact hf.sound_declared? declared hdeclared
      refine (modifyArena hv.1 (hv.1.arena.modifyFunction id ?_)).bind fun _ w hw _ =>
        .pure hw.1 (hw.backs hresult)
      exact fun info hinfo => hinfo.remember (hkey.mono hmono) hresult

theorem callOver (hs : s.Founded) {id : FunctionId} (hid : s.Has (.function id))
    {receiver : Option Ty} (hreceiver : ∀ t ∈ receiver, s.Backs t) {args : CallArgs}
    (hargs : args.Sound s.Has) :
    founded.Yields c (Check.callOver inner id receiver args)
      (Check.callOver other id receiver args) s Session.Backs := by
  refine (getArena hs).bind fun arena t hst h => ?_
  obtain ⟨rfl, rfl⟩ := h
  have hf := hs.arena.function id hid
  refine .read_bind ((reportAll hs _).bind fun _ u htu _ => ?_)
  split
  · refine .pure htu.1 (htu.backs ?_)
    cases hdeclared : (t.arena.functionAt id).declared? with
    | none => exact .any
    | some declared => exact hf.sound_declared? declared hdeclared
  · refine F.resultOver htu.1 (htu.grows _ hid) (hf.mono htu.grows) fun a ha => htu.backs ?_
    exact FunctionInfo.sound_bindArguments hf.signature _ _ hreceiver hargs a ha

end Bodies

section Calls

variable (F : Footing c inner other)
include F

theorem callSpecial (hs : s.Founded) {object : ObjectId} (hobject : s.Has (.object object))
    (name : String) {args : CallArgs} (hargs : args.Sound s.Has) :
    founded.Yields c (Check.callSpecial inner object name args)
      (Check.callSpecial other object name args) s fun t r => ∀ type ∈ r, t.Backs type := by
  refine (getArena hs).bind fun arena t hst h => ?_
  obtain ⟨rfl, rfl⟩ := h
  have hcls := hs.arena.classOf hobject
  refine (classLookup hs _ name).bind fun slot u htu hslot => ?_
  rcases slot with _ | _ | f
  · exact .pure htu.1 fun _ h => absurd h (Option.not_mem_none _)
  · exact .pure htu.1 fun _ h => absurd h (Option.not_mem_none _)
  · refine (getArena htu.1).bind fun arena v huv h => ?_
    obtain ⟨rfl, rfl⟩ := h
    have hf : v.Has (.function f) := (hslot _ rfl).has_of_mentions (.function f)
    refine Yields.bind (F.call huv.1 hf ?_ (hargs.mono htu.grows)) fun result w hw hresult =>
      .pure hw.1 fun _ h => Option.mem_some.1 h ▸ hresult
    intro receiver hr
    split at hr
    · exact Option.mem_some.1 hr ▸ .object (htu.grows _ hobject)
    · exact Option.mem_some.1 hr ▸ .classObj (htu.grows _ hcls)
    · exact absurd hr (Option.not_mem_none _)

theorem callSpecialOf (hs : s.Founded) {value : Ty} (hvalue : s.Backs value) (name : String)
    {args : CallArgs} (hargs : args.Sound s.Has) :
    founded.Yields c (Check.callSpecialOf inner value name args)
      (Check.callSpecialOf other value name args) s fun t r => ∀ type ∈ r, t.Backs type := by
  cases value with
  | object id => exact F.callSpecial hs (hvalue.has_of_mentions (.object id)) name hargs
  | _ => exact .pure hs fun _ h => absurd h (Option.not_mem_none _)

theorem callSpecial_getD (hs : s.Founded) {object : ObjectId} (hobject : s.Has (.object object))
    (name : String) {args : CallArgs} (hargs : args.Sound s.Has) {default : Ty}
    (hdefault : s.Backs default) :
    founded.Yields c (do return (← Check.callSpecial inner object name args).getD default)
      (do return (← Check.callSpecial other object name args).getD default) s Session.Backs := by
  refine (F.callSpecial hs hobject name hargs).bind fun result t hst hresult => .pure hst.1 ?_
  cases result with
  | none => exact hst.backs hdefault
  | some type => exact hresult type rfl

theorem madeByClass (hs : s.Founded) {id : ClassId} (hid : s.Has (.cls id)) {args : CallArgs}
    (hargs : args.Sound s.Has) :
    founded.Yields c (Check.madeByClass inner id args) (Check.madeByClass other id args) s
      fun t made => ∀ object ∈ made, t.Has (.object object) := by
  refine (classLookup hs id _).bind fun slot t hst hslot => ?_
  rcases slot with _ | _ | f
  · exact .pure hst.1 fun _ h => absurd h (Option.not_mem_none _)
  · exact .pure hst.1 fun _ h => absurd h (Option.not_mem_none _)
  · have hf : t.Has (.function f) := (hslot _ rfl).has_of_mentions (.function f)
    have hreceiver : ∀ receiver ∈ some (Ty.classObj id), t.Backs receiver :=
      fun _ h => Option.mem_some.1 h ▸ .classObj (hst.grows _ hid)
    refine (F.call hst.1 hf hreceiver (hargs.mono hst.grows)).bind fun made u htu hmade => ?_
    cases made with
    | object object =>
      refine (getArena htu.1).bind fun arena v huv h => .pure huv.1 fun found hfound => ?_
      split at hfound
      · exact Option.mem_some.1 hfound ▸ huv.grows _ (hmade.has_of_mentions (.object object))
      · exact absurd hfound (Option.not_mem_none _)
    | _ => exact .pure htu.1 fun _ h => absurd h (Option.not_mem_none _)

theorem initialise (hs : s.Founded) (id : ClassId) {args : CallArgs} (hargs : args.Sound s.Has)
    {object : ObjectId} (hobject : s.Has (.object object)) (isMade : Bool) :
    founded.Yields c (Check.initialise inner id args object isMade)
      (Check.initialise other id args object isMade) s fun _ _ => True := by
  refine (classLookup hs id _).bind fun slot t hst hslot => ?_
  rcases slot with _ | _ | f
  case some.function =>
    have hf : t.Has (.function f) := (hslot _ rfl).has_of_mentions (.function f)
    have hreceiver : ∀ receiver ∈ some (Ty.object object), t.Backs receiver :=
      fun _ h => Option.mem_some.1 h ▸ .object (hst.grows _ hobject)
    refine (F.call hst.1 hf hreceiver (hargs.mono hst.grows)).bind fun _ u htu _ => ?_
    exact .pure htu.1 trivial
  all_goals
    refine (getArena hst.1).bind fun arena u htu _ => ?_
    simp only
    split
    · exact (defaultProbability htu.1).bind fun _ v huv _ => report huv.1 _
    · exact .pure htu.1 trivial

theorem instantiate (hs : s.Founded) {id : ClassId} (hid : s.Has (.cls id)) {args : CallArgs}
    (hargs : args.Sound s.Has) :
    founded.Yields c (Check.instantiate inner id args) (Check.instantiate other id args) s
      Session.Backs := by
  refine (F.madeByClass hs hid hargs).bind fun made t hst hmade => ?_
  cases made with
  | some object =>
    have hobject := hmade object rfl
    refine (F.initialise hst.1 id (hargs.mono hst.grows) hobject true).bind fun _ u htu _ => ?_
    exact .pure htu.1 (.object (htu.grows _ hobject))
  | none =>
    refine (addObject hst.1 (hst.grows _ hid)).bind fun object u htu hobject => ?_
    have hargs := hargs.mono (hst.trans htu).grows
    refine (F.initialise htu.1 id hargs hobject false).bind fun _ v huv _ => ?_
    exact .pure huv.1 (.object (huv.grows _ hobject))

theorem callType (hs : s.Founded) {callee : Ty} (hcallee : s.Backs callee) {args : CallArgs}
    (hargs : args.Sound s.Has) :
    founded.Yields c (Check.callType inner callee args) (Check.callType other callee args) s
      Session.Backs := by
  induction callee using WellFounded.induction (measure (sizeOf : Ty → Nat)).wf generalizing s with
  | _ callee ih =>
    rw [callType.eq_def inner, callType.eq_def other]
    cases callee with
    | union u =>
      refine Yields.bind (.mapM hs lasting_backs fun t _ v hv => ?_) fun results t hst hresults =>
        .pure hst.1 (Ty.sound_oneOf _ hresults)
      exact ih t.1 (Ty.sizeOf_lt_of_mem_union t.2) hv.1 (hv.backs (hcallee.ofUnion t.1 t.2))
        (hargs.mono hv.grows)
    | builtin b =>
      have hresult := Ty.Sound.stable.resolve hcallee.ret hargs.positional
      simp only
      split
      · exact (warn hs _).bind fun _ t hst _ => .pure hst.1 (hst.backs hresult)
      · exact .pure hs hresult
    | function id =>
      have hid : s.Has (.function id) := hcallee.has_of_mentions (.function id)
      refine (getArena hs).bind fun arena t hst h => ?_
      obtain ⟨rfl, rfl⟩ := h
      refine F.call hst.1 hid (fun receiver hr => ?_) hargs
      split at hr
      · rename_i owner _ howner
        exact Option.mem_some.1 hr ▸ .classObj ((hs.arena.function id hid).owner owner howner)
      · exact absurd hr (Option.not_mem_none _)
    | method object id =>
      refine F.call hs (hcallee.has_of_mentions (.method object id)) (fun receiver hr => ?_) hargs
      exact Option.mem_some.1 hr ▸ .object (hcallee.has_of_mentions (.receiver object id))
    | classObj id => exact F.instantiate hs (hcallee.has_of_mentions (.classObj id)) hargs
    | object id => exact F.callSpecial_getD hs (hcallee.has_of_mentions (.object id)) _ hargs .any
    | _ => exact .pure hs .any

theorem iterationType (hs : s.Founded) {iterable : Ty} (hiterable : s.Backs iterable) :
    founded.Yields c (Check.iterationType inner iterable) (Check.iterationType other iterable) s
      Session.Backs := by
  induction iterable using WellFounded.induction (measure (sizeOf : Ty → Nat)).wf
    generalizing s with
  | _ iterable ih =>
    rw [iterationType.eq_def inner, iterationType.eq_def other]
    cases iterable with
    | object id =>
      have hid := hiterable.has_of_mentions (.object id)
      refine (F.callSpecial hs hid _ sound_noArgs).bind fun result t hst hresult => ?_
      rcases result with _ | result
      · exact .pure hst.1 .any
      · have hresult := hresult result rfl
        cases result with
        | object iterator =>
          exact F.callSpecial_getD hst.1 (hresult.has_of_mentions (.object iterator)) _ sound_noArgs
            .any
        | _ => exact .pure hst.1 (Ty.Sound.elementType hresult)
    | union u =>
      refine Yields.bind (.mapM hs lasting_backs fun t _ v hv => ?_) fun elements t hst helements =>
        .pure hst.1 (Ty.sound_oneOf _ helements)
      exact ih t.1 (Ty.sizeOf_lt_of_mem_union t.2) hv.1 (hv.backs (hiterable.ofUnion t.1 t.2))
    | _ => exact .pure hs (Ty.Sound.elementType hiterable)

omit F in
theorem instanceType? (hs : s.Founded) {classes : Ty} (hclasses : s.Backs classes) :
    founded.Yields c (Check.instanceType? classes) (Check.instanceType? classes) s
      fun t found => ∀ type ∈ found, t.Backs type := by
  induction classes using WellFounded.induction (measure (sizeOf : Ty → Nat)).wf
    generalizing s with
  | _ classes ih =>
    have nothing {t : Session} : ∀ type ∈ (none : Option Ty), t.Backs type :=
      fun _ h => absurd h (Option.not_mem_none _)
    rw [instanceType?.eq_def]
    cases classes with
    | classObj id =>
      refine (standIn hs (hclasses.has_of_mentions (.classObj id))).bind fun object t hst hobject => ?_
      exact .pure hst.1 fun _ h => Option.mem_some.1 h ▸ hobject
    | builtin b =>
      simp only
      split
      · exact .pure hs fun _ h => Option.mem_some.1 h ▸ .prim _
      · exact .pure hs fun _ h => Option.mem_some.1 h ▸ Ty.sound_empty _
      · exact .pure hs nothing
    | container model =>
      simp only
      split
      · refine Yields.bind (.mapM (R := fun t found => ∀ type ∈ found, t.Backs type) hs
          (fun _ _ hst _ h => hst.option h) fun t _ v hv => ?_) fun found t hst hfound => ?_
        · exact ih t.1 (Ty.sizeOf_lt_of_mem_elts t.2) hv.1 (hv.backs (hclasses.elts t.1 t.2))
        · refine .pure hst.1 fun type htype => ?_
          split at htype
          · exact absurd htype (Option.not_mem_none _)
          · refine Option.mem_some.1 htype ▸ Ty.sound_oneOf _ fun type htype => ?_
            obtain ⟨o, ho, hid⟩ := List.mem_filterMap.1 htype
            exact hfound o ho type hid
      · exact .pure hs nothing
    | _ => exact .pure hs nothing

end Calls

section Assignments

variable (F : Footing c inner other)
include F

theorem rebindContainer (hs : s.Founded) (e : Expr) {grown : Ty} (hgrown : s.Backs grown) :
    founded.Yields c (Check.rebindContainer inner e grown) (Check.rebindContainer other e grown) s
      fun _ _ => True := by
  unfold Check.rebindContainer
  cases e.form with
  | name name =>
    exact modifyScopes hs (hs.scopes.update name hgrown) (s.scopes.steady_update name grown)
  | member value attr =>
    refine (F.expr value hs).bind fun owner t hst _ => ?_
    exact modifyArena hst.1 (hst.1.arena.replaceAttribute owner attr (hst.backs hgrown))
  | _ => exact .pure hs trivial

theorem storeItem (hs : s.Founded) (container index : Expr) {value : Ty} (hvalue : s.Backs value) :
    founded.Yields c (Check.storeItem inner container index value)
      (Check.storeItem other container index value) s fun _ _ => True := by
  refine (F.expr container hs).bind fun holder t hst hholder => ?_
  refine (F.expr index hst.1).bind fun place u htu hplace => ?_
  have hholder := htu.backs hholder
  have hvalue := (hst.trans htu).backs hvalue
  cases holder with
  | container model =>
    simp only
    split
    · rename_i grown hgrown
      split
      · exact F.rebindContainer htu.1 _ (Ty.Sound.stable.withItem? hholder hplace hvalue hgrown)
      · exact .pure htu.1 trivial
    · exact .pure htu.1 trivial
  | object id =>
    have hargs : CallArgs.Sound u.Has { positional := [place, value] } :=
      ⟨by simp [hplace, hvalue], fun _ h => absurd h List.not_mem_nil⟩
    exact (F.callSpecial htu.1 (hholder.has_of_mentions (.object id)) _ hargs).bind
      fun _ v hv _ => .pure hv.1 trivial
  | _ => exact .pure htu.1 trivial

theorem assign (hs : s.Founded) (target : Expr) {value : Ty} (hvalue : s.Backs value)
    (confidence : Float) (mode : BindMode) :
    founded.Yields c (Check.assign inner target value confidence mode)
      (Check.assign other target value confidence mode) s fun _ _ => True := by
  induction target using WellFounded.induction (measure (sizeOf : Expr → Nat)).wf
    generalizing s value with
  | _ target ih =>
    -- The targets in a tuple or a list, without their stars.
    have parts {targets : List Expr} (h : ∀ k ∈ targets, k ∈ target.form.children) :
        founded.Yields c
          ((distribute targets value).attach.forM fun item =>
            Check.assign inner item.1.1 item.1.2 confidence mode)
          ((distribute targets value).attach.forM fun item =>
            Check.assign other item.1.1 item.1.2 confidence mode) s fun _ _ => True := by
      refine .forM hs fun item _ t hst => ?_
      obtain ⟨k, hm, hi⟩ := mem_distribute item.2
      have hlt : sizeOf k < sizeOf target := Expr.sizeOf_lt_of_mem_children (h k hm)
      have hitem := hst.backs (Ty.Sound.stable.distribute hvalue item.2)
      rcases hi with hi | hi
      · exact ih _ (hi ▸ hlt) hst.1 hitem
      · exact ih _ (hi ▸ Nat.lt_of_le_of_lt k.sizeOf_unstarred_le hlt) hst.1 hitem
    rw [assign.eq_def inner, assign.eq_def other]
    rcases target with ⟨node, form, span⟩
    cases form with
    | name name =>
      cases mode with
      | checked => exact bindName hs name hvalue confidence
      | fresh => exact setName hs name hvalue confidence
    | member owner attr =>
      refine (F.expr owner hs).bind fun holder t hst hholder => .get_bind ?_
      have hwritten := hst.1.arena.setAttribute hholder (hst.backs hvalue) attr
      refine (modifyArena hst.1 hwritten).bind fun _ u htu _ => ?_
      split
      · exact .pure htu.1 trivial
      · exact fail htu.1 _ _
    | subscript container index => exact F.storeItem hs container index hvalue
    | tuple targets => exact parts fun k hk => hk
    | list targets => exact parts fun k hk => hk
    | starred starred =>
      have h : starred ∈ (ExprForm.starred starred).children := by simp [ExprForm.children]
      exact ih starred (Expr.sizeOf_lt_of_mem_children h) hs
        (Ty.sound_listOf (Ty.Stable.known (Ty.Sound.elementType hvalue)))
    | _ => exact fail hs _ _

theorem optionExpr (hs : s.Founded) (e? : Option Expr) :
    founded.Yields c (e?.mapM inner.expr) (e?.mapM other.expr) s
      fun t found => ∀ type ∈ found, t.Backs type :=
  .optionMapM hs fun e _ => F.expr e hs

theorem paramInfo (hs : s.Founded) (p : Param Expr) (default? : Option Expr) :
    founded.Yields c (Check.paramInfo inner p default?) (Check.paramInfo other p default?) s
      fun t info => info.Sound t.Has := by
  refine Yields.bind (.optionMapM hs fun e _ => ascription hs e) fun ascribed t hst hascribed => ?_
  refine (F.optionExpr hst.1 default?).bind fun default u htu hdefault => ?_
  exact .pure htu.1 ⟨htu.option hascribed, hdefault⟩

omit F in
theorem lasting_param : Lasting founded fun t (info : ParamInfo) => info.Sound t.Has :=
  fun _ _ hst _ h => h.mono hst.grows

theorem signatureOf (hs : s.Founded) (params : Params Expr) :
    founded.Yields c (Check.signatureOf inner params) (Check.signatureOf other params) s
      fun t signature => signature.Sound t.Has := by
  refine Yields.bind (.mapM hs lasting_param fun p _ t hst => F.paramInfo hst.1 p.1 _)
    fun args t hst hargs => ?_
  refine Yields.bind (.optionMapM hst.1 fun p _ => F.paramInfo hst.1 p none)
    fun vararg u htu hvararg => ?_
  refine Yields.bind (.mapM htu.1 lasting_param fun p _ t hst => F.paramInfo hst.1 p.1 _)
    fun kwonly v huv hkwonly => ?_
  refine Yields.bind (.optionMapM huv.1 fun p _ => F.paramInfo huv.1 p none)
    fun kwarg w hvw hkwarg => .pure hvw.1 fun p hp => ?_
  simp only [Signature.all, List.mem_append, Option.mem_toList] at hp
  rcases hp with ((hp | hp) | hp) | hp
  · exact (hargs p hp).mono ((htu.trans huv).trans hvw).grows
  · exact (hvararg p hp).mono (huv.trans hvw).grows
  · exact (hkwonly p hp).mono hvw.grows
  · exact hkwarg p hp

end Assignments

end Discipline.Footing

end Credence

import Credence.Check.Expr
import Credence.Proofs.Footing

namespace Credence

open Check

namespace Discipline.Footing

open Yields Founded

variable {c : Context} {inner other : Inner} {s : Session}

theorem stamp (hs : s.Founded) :
    founded.Yields c CheckM.stamp CheckM.stamp s fun t kept => t.Has (.scope kept.scope) :=
  .of_ok (t := s) rfl (.refl hs) hs.scopes.current

theorem remembering (hs : s.Founded) {memo : Memo} (h : memo.entries = s.memo.entries) :
    founded.Moves s { s with memo } :=
  Session.moves_of_has rfl { hs with memo := fun key kept hkept => hs.memo key kept (h ▸ hkept) }

theorem namesBuiltin (hs : s.Founded) (func : Expr) (name : String) :
    founded.Yields c (Check.namesBuiltin func name) (Check.namesBuiltin func name) s
      fun _ _ => True := by
  unfold Check.namesBuiltin
  split
  · refine (getScopes hs).bind fun scopes t hst _ => ?_
    split <;> exact .pure hst.1 trivial
  · exact .pure hs trivial

theorem reportNonClasses (hs : s.Founded) (arg : Expr) (candidate : Ty) (confidence : Float) :
    founded.Yields c (Check.reportNonClasses arg candidate confidence)
      (Check.reportNonClasses arg candidate confidence) s fun _ _ => True := by
  refine Yields.bind (.forIn hs fun item _ t hst => ?_) fun _ t hst _ => .pure hst.1 trivial
  rcases item with ⟨type, prob⟩
  simp only
  split
  all_goals first
    | exact .pure hst.1 trivial
    | exact (display hst.1 _).bind fun _ u htu _ => (report htu.1 _).bind fun _ v huv _ =>
        .pure huv.1 trivial

theorem plainResult (hs : s.Founded) (op : BinaryOp) {left right : Ty} (hleft : s.Backs left)
    (hright : s.Backs right) (confidence : Float) :
    founded.Yields c (Check.plainResult op left right confidence)
      (Check.plainResult op left right confidence) s Session.Backs := by
  refine (getArena hs).bind fun arena t hst h => ?_
  obtain ⟨rfl, rfl⟩ := h
  cases hcombine : t.arena.combine op left right with
  | ok result => exact .pure hs (Ty.Sound.stable.combine hleft hright hcombine)
  | error mismatch => exact (report hs _).bind fun _ u hu _ => .pure hu.1 .any

theorem recordYield (hs : s.Founded) {t : Ty} (ht : s.Backs t) :
    founded.Yields c (Check.recordYield t) (Check.recordYield t) s fun _ _ => True := by
  refine .modify ?_ trivial
  cases hframes : s.frames with
  | nil => exact .refl hs
  | cons frame rest =>
    have hframe := hs.frames
    rw [hframes] at hframe
    obtain ⟨hhead, hrest⟩ := List.forall_mem_cons.1 hframe
    refine Session.moves_of_has rfl { hs with frames := List.forall_mem_cons.2 ⟨?_, hrest⟩ }
    have hyields := List.forall_mem_append.2 ⟨hhead.yields, List.forall_mem_singleton.2 ht⟩
    exact { hhead with yields := hyields }

section Expressions

variable (F : Footing c inner other)
include F

theorem exprs (hs : s.Founded) (es : List Expr) :
    founded.Yields c (es.mapM inner.expr) (es.mapM other.expr) s
      fun t types => ∀ type ∈ types, t.Backs type :=
  .mapM hs lasting_backs fun e _ _ hst => F.expr e hst.1

theorem arguments (hs : s.Founded) (args : List Expr) (keywords : List (Keyword Expr)) :
    founded.Yields c (Check.arguments inner args keywords) (Check.arguments other args keywords) s
      fun t callArgs => callArgs.Sound t.Has := by
  refine Yields.bind (.foldlM hs sound_noArgs fun arg _ result t hst hresult => ?_)
    fun spread _ hst hspread => .foldlM hst.1 hspread fun keyword _ result u hu hresult => ?_
  · cases arg.starred? with
    | none =>
      refine (F.expr arg hst.1).bind fun type u hu htype => .pure hu.1 ?_
      have hresult := hresult.mono hu.grows
      have hpositional :=
        List.forall_mem_append.2 ⟨hresult.positional, List.forall_mem_singleton.2 htype⟩
      exact { hresult with positional := hpositional }
    | some spread =>
      refine (F.expr spread hst.1).bind fun type u hu htype => ?_
      have hresult := hresult.mono hu.grows
      cases type with
      | container model =>
        simp only
        split
        · have hpositional := List.forall_mem_append.2 ⟨hresult.positional, htype.elts⟩
          exact .pure hu.1 { hresult with positional := hpositional }
        · exact .pure hu.1 { hresult with }
      | _ => exact .pure hu.1 { hresult with }
  · refine (F.expr keyword.value hu.1).bind fun value v hv hvalue => ?_
    have hresult := hresult.mono hv.grows
    cases keyword.arg with
    | none => exact .pure hv.1 { hresult with }
    | some name =>
      have hkeywords : ∀ keyword ∈ result.keywords ++ [(name, value)], keyword.2.Sound v.Has :=
        List.forall_mem_append.2 ⟨hresult.keywords, List.forall_mem_singleton.2 hvalue⟩
      exact .pure hv.1 { hresult with keywords := hkeywords }

theorem checkSubclassTest (hs : s.Founded) (args : List Expr) :
    founded.Yields c (Check.checkSubclassTest inner args) (Check.checkSubclassTest other args) s
      Session.Backs := by
  refine Yields.bind (.forIn hs fun arg _ t hst => ?_) fun _ t hst _ => .pure hst.1 (.prim _)
  refine (F.expr arg hst.1).bind fun type u hu _ => ?_
  refine (confidenceOf hu.1 arg).bind fun confidence v hv _ => ?_
  refine Yields.bind (.forIn hv.1 fun candidate _ w hw => ?_) fun _ w hw _ => .pure hw.1 trivial
  exact (reportNonClasses hw.1 arg candidate confidence).bind fun _ x hx _ => .pure hx.1 trivial

theorem checkPlainCall (hs : s.Founded) (func : Expr) (args : List Expr)
    (keywords : List (Keyword Expr)) :
    founded.Yields c (Check.checkPlainCall inner func args keywords)
      (Check.checkPlainCall other func args keywords) s Session.Backs := by
  have plain : founded.Yields c
      (do
        let callee ← inner.expr func
        Check.callType inner callee (← Check.arguments inner args keywords))
      (do
        let callee ← other.expr func
        Check.callType other callee (← Check.arguments other args keywords)) s Session.Backs := by
    refine (F.expr func hs).bind fun callee t hst hcallee => ?_
    refine (F.arguments hst.1 args keywords).bind fun callArgs u hu hargs => ?_
    exact F.callType hu.1 (hu.backs hcallee) hargs
  unfold Check.checkPlainCall
  cases func.form with
  | member value attr =>
    refine (F.expr value hs).bind fun receiver t hst hreceiver => ?_
    refine (confidenceOf hst.1 value).bind fun confidence u hu _ => ?_
    refine (readAttribute hu.1 (hu.backs hreceiver) attr confidence).bind
      fun callee v hv hcallee => ?_
    refine (F.arguments hv.1 args keywords).bind fun callArgs w hw hargs => ?_
    refine (F.callType hw.1 (hw.backs hcallee) hargs).bind fun result x hx hresult => ?_
    split
    · rename_i grown hgrown
      have hreceiver := (((hu.trans hv).trans hw).trans hx).backs hreceiver
      have hgrown := Ty.Sound.stable.grown? hreceiver (hargs.mono hx.grows).positional hgrown
      exact (F.rebindContainer hx.1 value hgrown).bind fun _ y hy _ => .pure hy.1 (hy.backs hresult)
    · exact .pure hx.1 hresult
  | _ => exact plain

theorem checkCall (hs : s.Founded) (func : Expr) (args : List Expr)
    (keywords : List (Keyword Expr)) :
    founded.Yields c (Check.checkCall inner func args keywords)
      (Check.checkCall other func args keywords) s Session.Backs := by
  refine (namesBuiltin hs func _).bind fun isTest t hst _ => ?_
  refine (namesBuiltin hst.1 func _).bind fun asksName u hu _ => ?_
  split
  · exact (F.arguments hu.1 args keywords).bind fun _ v hv _ => .pure hv.1 (.prim _)
  refine (namesBuiltin hu.1 func _).bind fun isSubclassTest v hv _ => ?_
  split
  · exact F.checkSubclassTest hv.1 args
  refine (namesBuiltin hv.1 func _).bind fun isType w hw _ => ?_
  have plain := F.checkPlainCall hw.1 func args keywords
  split
  · rcases args with _ | ⟨arg, _ | ⟨_, _⟩⟩
    · exact plain
    · refine (F.expr arg hw.1).bind fun type x hx htype => ?_
      cases type with
      | object id =>
        refine (getArena hx.1).bind fun arena y hy h => ?_
        obtain ⟨rfl, rfl⟩ := h
        exact .pure hy.1 (.classObj (hy.1.arena.classOf (htype.has_of_mentions (.object id))))
      | _ => exact .pure hx.1 .any
    · exact plain
  · exact plain

theorem checkDisplay (hs : s.Founded) (kind : ContainerKind) (elts : List Expr) :
    founded.Yields c (Check.checkDisplay inner kind elts) (Check.checkDisplay other kind elts) s
      Session.Backs := by
  refine Yields.bind (.foldlM (R := fun t model => t.Backs (.container model)) hs
    (Ty.sound_empty kind) fun elt _ model t hst hmodel => ?_) fun model t hst hmodel =>
      .pure hst.1 hmodel
  cases elt.starred? with
  | none =>
    refine (F.expr elt hst.1).bind fun type u hu htype => .pure hu.1 ?_
    have hmodel := hu.backs hmodel
    split
    · exact Ty.Sound.push hmodel htype
    · exact Ty.Sound.pushKnown hmodel htype
  | some spread =>
    refine (F.expr spread hst.1).bind fun type u hu htype => .pure hu.1 ?_
    exact Ty.Sound.pushKnown (hu.backs hmodel) (Ty.Sound.elementType htype)

theorem checkDict (hs : s.Founded) (items : List (Option Expr × Expr)) :
    founded.Yields c (Check.checkDict inner items) (Check.checkDict other items) s
      Session.Backs := by
  refine Yields.bind (.foldlM (R := fun t model => t.Backs (.container model)) hs
    (Ty.sound_empty .dict) fun item _ model t hst hmodel => ?_) fun model t hst hmodel =>
      .pure hst.1 hmodel
  cases item.1 with
  | some key =>
    refine (F.expr key hst.1).bind fun k u hu hk => ?_
    refine (F.expr item.2 hu.1).bind fun value v hv hvalue => .pure hv.1 ?_
    exact Ty.Sound.pushPair ((hu.trans hv).backs hmodel) (hv.backs hk) hvalue
  | none =>
    refine (F.expr item.2 hst.1).bind fun spread u hu hspread => ?_
    have hmodel := hu.backs hmodel
    cases spread with
    | container spread =>
      refine .pure hu.1 ?_
      split
      · exact Ty.Sound.extended hmodel hspread
      · exact hmodel
    | _ => exact .pure hu.1 hmodel

theorem binaryResult (hs : s.Founded) (op : BinaryOp) {left right : Ty} (hleft : s.Backs left)
    (hright : s.Backs right) (confidence : Float) :
    founded.Yields c (Check.binaryResult inner op left right confidence)
      (Check.binaryResult other op left right confidence) s Session.Backs := by
  refine (F.callSpecialOf hs hleft _ (sound_oneArg hright)).bind fun result t hst hresult => ?_
  cases result with
  | some result => exact .pure hst.1 (hresult result rfl)
  | none =>
    refine (F.callSpecialOf hst.1 (hst.backs hright) _ (sound_oneArg (hst.backs hleft))).bind
      fun result u hu hresult => ?_
    have hsu := hst.trans hu
    cases result with
    | some result => exact .pure hu.1 (hresult result rfl)
    | none => exact plainResult hu.1 op (hsu.backs hleft) (hsu.backs hright) confidence

theorem checkUnary (hs : s.Founded) (op : UnaryOp) (operand : Expr) :
    founded.Yields c (Check.checkUnary inner op operand) (Check.checkUnary other op operand) s
      Session.Backs := by
  refine (F.expr operand hs).bind fun type t hst htype => ?_
  have hplain := Ty.Sound.stable.applyUnary op htype
  cases unaryMethod? op with
  | some method =>
    refine (F.callSpecialOf hst.1 htype method sound_noArgs).bind fun result u hu hresult =>
      .pure hu.1 ?_
    cases result with
    | some result => exact hresult result rfl
    | none => exact hu.backs hplain
  | none => exact .pure hst.1 hplain

theorem checkCompare (hs : s.Founded) (left : Expr) (rest : List (CompareOp × Expr)) :
    founded.Yields c (Check.checkCompare inner left rest) (Check.checkCompare other left rest) s
      Session.Backs := by
  refine (F.expr left hs).bind fun first t hst hfirst => ?_
  refine Yields.bind (.foldlM (R := Session.Backs) hst.1 hfirst
    fun step _ previous u hu hprevious => ?_) fun _ u hu _ => .pure hu.1 (.prim _)
  refine (F.expr step.2 hu.1).bind fun right v hv hright => ?_
  split
  · exact (F.callSpecialOf hv.1 hright _ (sound_oneArg (hv.backs hprevious))).bind fun _ w hw _ =>
      .pure hw.1 (hw.backs hright)
  · exact .pure hv.1 hright

theorem itemType (hs : s.Founded) {container : Ty} (hcontainer : s.Backs container) (index : Expr)
    {indexType : Ty} (hindex : s.Backs indexType) :
    founded.Yields c (Check.itemType inner container index indexType)
      (Check.itemType other container index indexType) s Session.Backs := by
  induction container using WellFounded.induction (measure (sizeOf : Ty → Nat)).wf
    generalizing s with
  | _ container ih =>
    rw [itemType.eq_def inner, itemType.eq_def other]
    cases container with
    | union u =>
      refine Yields.bind (.mapM hs lasting_backs fun t _ v hv => ?_) fun results t hst hresults =>
        .pure hst.1 (Ty.sound_oneOf _ hresults)
      exact ih t.1 (Ty.sizeOf_lt_of_mem_union t.2) hv.1 (hv.backs (hcontainer.ofUnion t.1 t.2))
        (hv.backs hindex)
    | container model =>
      have helement := Ty.Sound.containerElementType hcontainer
      simp only
      cases model.kind with
      | list => exact .pure hs helement
      | set => exact .pure hs helement
      | dict => exact .pure hs (Ty.Sound.valueType hcontainer)
      | tuple => exact .pure hs (Ty.Sound.stable.tupleItem hcontainer _)
    | prim kind => cases kind <;> exact .pure hs (by constructor)
    | object id =>
      exact F.callSpecial_getD hs (hcontainer.has_of_mentions (.object id)) _ (sound_oneArg hindex)
        .any
    | _ => exact .pure hs .any

theorem checkSubscript (hs : s.Founded) (value index : Expr) :
    founded.Yields c (Check.checkSubscript inner value index)
      (Check.checkSubscript other value index) s Session.Backs := by
  refine (F.expr value hs).bind fun container t hst hcontainer => ?_
  refine (F.expr index hst.1).bind fun indexType u hu hindex => ?_
  have hcontainer := hu.backs hcontainer
  split
  · exact .pure hu.1 (Ty.Sound.stable.sliced hcontainer)
  · exact F.itemType hu.1 hcontainer index hindex

theorem narrowTo (hs : s.Founded) (subject classes : Expr) :
    founded.Yields c (Check.narrowTo inner subject classes) (Check.narrowTo other subject classes) s
      fun _ _ => True := by
  unfold Check.narrowTo
  split
  · rename_i name _
    refine (F.expr classes hs).bind fun type t hst htype => ?_
    refine (instanceType? hst.1 htype).bind fun narrowed u hu hnarrowed => ?_
    cases narrowed with
    | none => exact .pure hu.1 trivial
    | some narrowed =>
      refine (getArena hu.1).bind fun arena v hv _ => (getScopes hv.1).bind fun scopes w hw h => ?_
      obtain ⟨rfl, rfl⟩ := h
      refine modifyScopes hw.1 (hw.1.scopes.narrow name ?_) (w.scopes.steady_narrow name _)
      split
      · exact hv.backs (hnarrowed narrowed rfl)
      · refine Ty.sound_oneOf_weighted fun item hitem => ?_
        exact (hv.1.scopes.find name).alternatives (List.mem_filter.1 hitem).1
  · exact .pure hs trivial

theorem checkCondition (hs : s.Founded) (e : Expr) :
    founded.Yields c (Check.checkCondition inner e) (Check.checkCondition other e) s
      fun _ _ => True := by
  induction e using WellFounded.induction (measure (sizeOf : Expr → Nat)).wf generalizing s with
  | _ e ih =>
    have plain : founded.Yields c (inner.expr e >>= fun _ => pure ())
        (other.expr e >>= fun _ => pure ()) s fun _ _ => True :=
      (F.expr e hs).bind fun _ t hst _ => .pure hst.1 trivial
    rw [checkCondition.eq_def inner, checkCondition.eq_def other]
    rcases e with ⟨node, form, span⟩
    cases form with
    | boolOp op values =>
      cases op with
      | and =>
        refine .forM hs fun value _ t hst => ?_
        exact ih value.1 (Expr.sizeOf_lt_of_mem_children value.2) hst.1
      | or => exact plain
    | call func args keywords =>
      rcases args with _ | ⟨subject, _ | ⟨classes, _ | ⟨_, _⟩⟩⟩
      · exact plain
      · exact plain
      · refine (namesBuiltin hs func _).bind fun isTest t hst _ => ?_
        refine (F.expr _ hst.1).bind fun _ u hu _ => ?_
        split
        · exact F.narrowTo hu.1 subject classes
        · exact .pure hu.1 trivial
      · exact plain
    | _ => exact plain

theorem inClauses {α : Type} {Q : Session → α → Prop} (hs : s.Founded)
    (clauses : List (Clause Expr)) {x y : CheckM α} (hQ : Lasting founded Q)
    (hx : ∀ {t : Session}, t.Founded → founded.Yields c x y t Q) :
    founded.Yields c (Check.inClauses inner clauses x) (Check.inClauses other clauses y) s Q := by
  refine inScope hs hQ fun t hst => Yields.bind (.forIn hst.1 fun clause _ u hu => ?_)
    fun _ u hu _ => hx hu.1
  refine (F.expr clause.iter hu.1).bind fun iterable v hv hiterable => ?_
  refine (F.iterationType hv.1 hiterable).bind fun element w hw helement => ?_
  refine (F.assign hw.1 clause.target helement _ _).bind fun _ x hx _ => ?_
  refine Yields.bind (.forIn hx.1 fun condition _ y hy => ?_) fun _ y hy _ => .pure hy.1 trivial
  exact (F.checkCondition hy.1 condition).bind fun _ z hz _ => .pure hz.1 trivial

theorem checkComprehension (hs : s.Founded) (kind : ContainerKind) (elt : Expr)
    (clauses : List (Clause Expr)) :
    founded.Yields c (Check.checkComprehension inner kind elt clauses)
      (Check.checkComprehension other kind elt clauses) s Session.Backs := by
  refine (F.inClauses hs clauses lasting_backs fun ht => F.expr elt ht).bind fun t u hst ht => ?_
  exact .pure hst.1 (Ty.Sound.pushKnown (Ty.sound_empty kind) ht)

theorem checkDictComprehension (hs : s.Founded) (key value : Expr) (clauses : List (Clause Expr)) :
    founded.Yields c (Check.checkDictComprehension inner key value clauses)
      (Check.checkDictComprehension other key value clauses) s Session.Backs := by
  refine Yields.bind (F.inClauses (Q := fun t (pair : Ty × Ty) => t.Backs pair.1 ∧ t.Backs pair.2)
    hs clauses (fun _ _ hst _ h => ⟨hst.backs h.1, hst.backs h.2⟩) fun ht => ?_)
    fun pair t hst h => .pure hst.1 (Ty.Sound.pushPair (Ty.sound_empty .dict) h.1 h.2)
  refine (F.expr key ht).bind fun k u hu hk => (F.expr value hu.1).bind fun v w hw hv => ?_
  exact .pure hw.1 ⟨hw.backs hk, hv⟩

theorem checkLambda (hs : s.Founded) (line : Nat) (params : Params Expr) (body : Expr) :
    founded.Yields c (Check.checkLambda inner line params body)
      (Check.checkLambda other line params body) s Session.Backs := by
  refine (F.signatureOf hs params).bind fun signature t hst hsignature => .get_bind ?_
  refine (addFunction hst.1 ⟨hsignature, ?_, ?_, ?_, hst.1.scopes.current, ?_⟩).bind
    fun id u hu hid => .pure hu.1 (.function hid)
  all_goals first
    | exact fun _ h => absurd h (Option.not_mem_none _)
    | exact fun _ h => absurd h List.not_mem_nil

theorem evaluate (hs : s.Founded) (e : Expr) :
    founded.Yields c (Check.evaluate inner e) (Check.evaluate other e) s Session.Backs := by
  unfold Check.evaluate
  cases e.form with
  | name name =>
    refine (getScopes hs).bind fun scopes t hst h => ?_
    obtain ⟨rfl, rfl⟩ := h
    split
    · rename_i binding hbinding
      refine .pure hs ?_
      split
      · exact .any
      · exact hs.scopes.of_lookup hbinding
    · exact .pure hs .any
  | number value => cases value <;> exact .pure hs (.prim _)
  | list elts | tuple elts | set elts => exact F.checkDisplay hs _ elts
  | dict items => exact F.checkDict hs items
  | listComp elt clauses | generator elt clauses | setComp elt clauses =>
    exact F.checkComprehension hs _ elt clauses
  | dictComp key value clauses => exact F.checkDictComprehension hs key value clauses
  | lambda params body => exact F.checkLambda hs e.line params body
  | ifExp test body orelse =>
    refine (F.checkCondition hs test).bind fun _ t hst _ => ?_
    refine (F.expr body hst.1).bind fun left u hu hleft => ?_
    refine (F.expr orelse hu.1).bind fun right v hv hright => .pure hv.1 ?_
    exact Ty.sound_oneOf_pair (hv.backs hleft) hright
  | boolOp op values =>
    exact (F.exprs hs values).bind fun types t hst h => .pure hst.1 (Ty.sound_oneOf _ h)
  | binOp left op right =>
    refine (F.expr left hs).bind fun l t hst hl => (F.expr right hst.1).bind fun r u hu hr => ?_
    refine (confidenceOf hu.1 left).bind fun p v hv _ => ?_
    refine (confidenceOf hv.1 right).bind fun q w hw _ => ?_
    exact F.binaryResult hw.1 op (((hu.trans hv).trans hw).backs hl) ((hv.trans hw).backs hr) _
  | unaryOp op operand => exact F.checkUnary hs op operand
  | compare left rest => exact F.checkCompare hs left rest
  | call func args keywords => exact F.checkCall hs func args keywords
  | member value attr =>
    refine (F.expr value hs).bind fun owner t hst howner => ?_
    refine (confidenceOf hst.1 value).bind fun confidence u hu _ => ?_
    exact readAttribute hu.1 (hu.backs howner) attr confidence
  | subscript value index => exact F.checkSubscript hs value index
  | slice lower upper step =>
    refine Yields.bind (.forIn hs fun part _ t hst => ?_) fun _ t hst _ => .pure hst.1 .any
    exact (F.expr part hst.1).bind fun _ u hu _ => .pure hu.1 trivial
  | starred value | await value => exact F.expr value hs
  | yield value =>
    cases value with
    | none => exact (recordYield hs (.prim _)).bind fun _ t hst _ => .pure hst.1 .any
    | some value =>
      refine (F.expr value hs).bind fun type t hst htype => ?_
      exact (recordYield hst.1 htype).bind fun _ u hu _ => .pure hu.1 .any
  | yieldFrom value =>
    refine (F.expr value hs).bind fun type t hst htype => ?_
    refine (F.iterationType hst.1 htype).bind fun element u hu helement => ?_
    exact (recordYield hu.1 helement).bind fun _ v hv _ => .pure hv.1 .any
  | named target value =>
    refine (F.expr value hs).bind fun type t hst htype => ?_
    refine (confidenceOf hst.1 value).bind fun confidence u hu _ => ?_
    have htype := hu.backs htype
    exact (F.assign hu.1 target htype confidence _).bind fun _ v hv _ => .pure hv.1 (hv.backs htype)
  | str | bytes | formatStr | bool | noneLiteral => exact .pure hs (.prim _)
  | ellipsis => exact .pure hs .any

omit F in
theorem backs_hinted {inferred : Ty} (hinferred : s.Backs inferred) (hint : Option (Ty × Float)) :
    (∀ found ∈ hint, s.Backs found.1) →
    s.Backs (match hint with
      | some (hinted, _) => if hinted.isUnknown then inferred else hinted
      | none => inferred) := by
  intro hhint
  cases hint with
  | none => exact hinferred
  | some found =>
    simp only
    split
    · exact hinferred
    · exact hhint found rfl

theorem exprOver (hs : s.Founded) (e : Expr) :
    founded.Yields c (Check.exprOver inner e) (Check.exprOver other e) s Session.Backs := by
  refine (stamp hs).bind fun before t hst _ => ?_
  refine Yields.bind (Q := fun t (known : Option Ty) => ∀ type ∈ known, t.Backs type)
    (.modifyGet (remembering hst.1 (Memo.entries_get ..)) fun type htype => ?_)
    fun known u hu hknown => ?_
  · exact (hst.1.memo _ _ (Memo.getElem?_of_get htype)).1
  · cases known with
    | some type => exact .pure hu.1 (hknown type rfl)
    | none =>
      refine (F.evaluate hu.1 e).bind fun inferred v hv hinferred => ?_
      refine (hint? hv.1 e).bind fun hint w hw hhint => ?_
      have htype := backs_hinted (hw.backs hinferred) hint fun found hfound =>
        (F.context.hints _ _ (hhint found hfound)).of_none
      refine (stamp hw.1).bind fun after x hx hafter => ?_
      refine Yields.bind (of_has rfl { hx.1 with memo := fun key kept hkept => ?_ })
        fun _ y hy _ => .pure hy.1 ((hx.trans hy).backs htype)
      rcases Memo.getElem?_store hkept with rfl | hold
      · exact ⟨hx.backs htype, hafter⟩
      · exact hx.1.memo key kept hold

end Expressions

end Discipline.Footing

end Credence

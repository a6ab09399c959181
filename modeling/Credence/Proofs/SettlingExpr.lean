import Credence.Check.Expr
import Credence.Proofs.SettlingCall

namespace Credence

open Check

def Ty.IsTuple (t : Ty) (n : Nat) : Prop :=
  ∃ model : Container Ty, t = .container model ∧ model.kind = .tuple ∧ model.elts.length = n

/-- An expression displays a tuple of a number of parts, none of which is spread. -/
def Expr.Displays (e : Expr) (n : Nat) : Prop :=
  ∃ elts, e.form = .tuple elts ∧ (∀ elt ∈ elts, elt.starred? = none) ∧ elts.length = n

def Expr.IsMember (e : Expr) : Prop :=
  ∃ value attr, e.form = .member value attr

theorem Expr.Displays.unique {e : Expr} {m n : Nat} (hm : e.Displays m) (hn : e.Displays n) : m = n := by
  obtain ⟨elts, hform, -, rfl⟩ := hm
  obtain ⟨others, hother, -, rfl⟩ := hn
  rw [hform] at hother
  cases hother
  rfl

theorem Expr.Displays.not_isMember {e : Expr} {n : Nat} (h : e.Displays n) : ¬e.IsMember := by
  obtain ⟨elts, hform, -⟩ := h
  rintro ⟨value, attr, hmember⟩
  rw [hform] at hmember
  cases hmember

/-- A type that the parts of an expression may give it. -/
structure Expr.Yields (e : Expr) (t : Ty) : Prop where
  held : t.Held
  member : t = .undefined → e.IsMember
  tuple : ∀ n, e.Displays n → t.IsTuple n

theorem Container.push_tuple {model : Container Ty} {t : Ty} (hkind : model.kind = .tuple)
    (ht : t.isUndefined = false) :
    (model.push t).kind = .tuple ∧ (model.push t).elts.length = model.elts.length + 1 := by
  simp [push, pushWith, hkind, ht]

namespace Check.Settles

variable {c : Context}

theorem namesBuiltin (func : Expr) (name : String) :
    Settles c (Check.namesBuiltin func name) (Check.namesBuiltin func name) fun _ => True := by
  unfold Check.namesBuiltin
  split
  · refine getScopes.bind fun scopes _ => ?_
    split <;> exact .pure trivial
  · exact .pure trivial

theorem reportNonClasses (arg : Expr) (candidate : Ty) (confidence : Float) :
    Settles c (Check.reportNonClasses arg candidate confidence)
      (Check.reportNonClasses arg candidate confidence) fun _ => True := by
  refine Settles.andPure (.forIn fun item _ => ?_) trivial
  rcases item with ⟨type, prob⟩
  simp only
  split
  all_goals first
    | exact .pure trivial
    | exact (display _).bind fun _ _ => (report _).andPure trivial

theorem plainResult (op : BinaryOp) {left right : Ty} (hleft : left.Settled) (hright : right.Settled)
    (confidence : Float) :
    Settles c (Check.plainResult op left right confidence)
      (Check.plainResult op left right confidence) Ty.Settled := by
  refine getArena.bind fun arena _ => ?_
  cases hcombine : arena.combine op left right with
  | ok result => exact .pure (Ty.Settled.stable.combine hleft hright hcombine)
  | error mismatch => exact (report _).andPure Ty.Settled.any

theorem recordYield {t : Ty} (ht : t.Settled) :
    Settles c (Check.recordYield t) (Check.recordYield t) fun _ => True := by
  refine .modify fun s hs => ?_
  cases hframes : s.frames with
  | nil => exact hs
  | cons frame rest =>
    obtain ⟨hhead, hrest⟩ := List.forall_mem_cons.1 (hframes ▸ hs.frames)
    refine { hs with frames := List.forall_mem_cons.2 ⟨⟨hhead.returns, ?_⟩, hrest⟩ }
    exact List.forall_mem_append.2 ⟨hhead.yields, List.forall_mem_singleton.2 ht⟩

end Check.Settles

namespace Check.Settling

open Settles
open Ty.Settled (stable)

variable {c : Context} {inner other : Inner} (F : Settling c inner other)
include F

theorem exprs (es : List Expr) :
    Settles c (es.mapM inner.expr) (es.mapM other.expr) fun ts => ∀ t ∈ ts, t.Settled :=
  .mapM fun e _ => F.expr e

theorem arguments (args : List Expr) (keywords : List (Keyword Expr)) :
    Settles c (Check.arguments inner args keywords) (Check.arguments other args keywords)
      CallArgs.Settled := by
  refine Settles.bind (.foldlM settled_noArgs fun arg _ result hresult => ?_) fun spread hspread =>
    .foldlM hspread fun keyword _ result hresult => ?_
  · cases arg.starred? with
    | none =>
      refine (F.expr arg).bind fun t ht => .pure { hresult with positional := ?_ }
      exact List.forall_mem_append.2 ⟨hresult.positional, List.forall_mem_singleton.2 ht⟩
    | some spread =>
      refine (F.expr spread).bind fun t ht => ?_
      cases t with
      | container model =>
        simp only
        split
        · have hpositional := List.forall_mem_append.2 ⟨hresult.positional, ht.elts⟩
          exact .pure { hresult with positional := hpositional }
        · exact .pure ⟨hresult.positional, hresult.keywords⟩
      | _ => exact .pure ⟨hresult.positional, hresult.keywords⟩
  · refine (F.expr keyword.value).bind fun value hvalue => ?_
    cases keyword.arg with
    | none => exact .pure ⟨hresult.positional, hresult.keywords⟩
    | some name =>
      have hkeywords : ∀ keyword ∈ result.keywords ++ [(name, value)], keyword.2.Settled :=
        List.forall_mem_append.2 ⟨hresult.keywords, List.forall_mem_singleton.2 hvalue⟩
      exact .pure { hresult with keywords := hkeywords }

theorem checkSubclassTest (args : List Expr) :
    Settles c (Check.checkSubclassTest inner args) (Check.checkSubclassTest other args)
      Ty.Settled := by
  refine Settles.andPure (.forIn fun arg _ => ?_) (Ty.Settled.prim _)
  refine (F.expr arg).bind fun t _ => (confidenceOf arg).bind fun confidence _ => ?_
  refine Settles.andPure (.forIn fun candidate _ => ?_) trivial
  exact (Settles.reportNonClasses arg candidate confidence).andPure trivial

/-- What is called on a value need not be settled itself. -/
theorem checkPlainCall (func : Expr) (args : List Expr) (keywords : List (Keyword Expr)) :
    Settles c (Check.checkPlainCall inner func args keywords)
      (Check.checkPlainCall other func args keywords) Ty.Settled := by
  have plain : Settles c
      (do
        let callee ← inner.expr func
        Check.callType inner callee (← Check.arguments inner args keywords))
      (do
        let callee ← other.expr func
        Check.callType other callee (← Check.arguments other args keywords)) Ty.Settled :=
    (F.expr func).bind fun callee hcallee => (F.arguments args keywords).bind fun callArgs hargs =>
      F.callType hcallee.held hargs
  unfold Check.checkPlainCall
  cases func.form with
  | member value attr =>
    refine (F.expr value).bind fun receiver hreceiver => ?_
    refine (confidenceOf value).bind fun confidence _ => ?_
    refine (readAttribute hreceiver attr confidence).bind fun callee hcallee => ?_
    refine (F.arguments args keywords).bind fun callArgs hargs => ?_
    refine (F.callType hcallee hargs).bind fun result hresult => ?_
    split
    · rename_i grown hgrown
      exact (F.rebindContainer value (stable.grown? hreceiver hargs.positional hgrown)).andPure hresult
    · exact .pure hresult
  | _ => exact plain

theorem checkCall (func : Expr) (args : List Expr) (keywords : List (Keyword Expr)) :
    Settles c (Check.checkCall inner func args keywords) (Check.checkCall other func args keywords)
      Ty.Settled := by
  have plain := F.checkPlainCall func args keywords
  refine (Settles.namesBuiltin func _).bind fun isTest _ => (Settles.namesBuiltin func _).bind fun asksName _ => ?_
  split
  · exact (F.arguments args keywords).andPure (Ty.Settled.prim _)
  refine (Settles.namesBuiltin func _).bind fun isSubclassTest _ => ?_
  split
  · exact F.checkSubclassTest args
  refine (Settles.namesBuiltin func _).bind fun isType _ => ?_
  split
  · rcases args with _ | ⟨arg, _ | ⟨_, _⟩⟩
    · exact plain
    · refine (F.expr arg).bind fun t _ => ?_
      cases t with
      | object id => exact getArena.bind fun arena _ => .pure (.classObj _)
      | _ => exact .pure .any
    · exact plain
  · exact plain

theorem checkDisplay (kind : ContainerKind) (elts : List Expr) :
    Settles c (Check.checkDisplay inner kind elts) (Check.checkDisplay other kind elts)
      Ty.Settled := by
  refine Settles.bind (.foldlM (R := fun model => (Ty.container model).Settled)
    (Ty.settled_empty kind) fun elt _ model hmodel => ?_) fun model hmodel => .pure hmodel
  cases elt.starred? with
  | none =>
    refine (F.expr elt).bind fun t ht => .pure ?_
    split
    · exact stable.push hmodel ht
    · exact stable.pushKnown hmodel ht
  | some spread =>
    exact (F.expr spread).bind fun t ht => .pure (stable.pushKnown hmodel (stable.elementType ht))

theorem tupleDisplay {elts : List Expr} (h : ∀ elt ∈ elts, elt.starred? = none) :
    Settles c (Check.checkDisplay inner .tuple elts) (Check.checkDisplay other .tuple elts)
      (·.IsTuple elts.length) := by
  -- Each part adds an element to a tuple, by induction on the parts.
  refine Settles.bind (Q := fun model => model.kind = .tuple ∧ model.elts.length = elts.length) ?_
    fun model hmodel => .pure ⟨model, rfl, hmodel⟩
  have hstart : ({ kind := .tuple } : Container Ty).elts.length = 0 := rfl
  rw [← Nat.zero_add elts.length, ← hstart]
  have hkind : ({ kind := .tuple } : Container Ty).kind = .tuple := rfl
  generalize ({ kind := .tuple } : Container Ty) = model at hkind
  induction elts generalizing model with
  | nil => exact .pure ⟨hkind, rfl⟩
  | cons elt rest ih =>
    obtain ⟨hplain, hrest⟩ := List.forall_mem_cons.1 h
    rw [List.foldlM_cons, List.foldlM_cons, hplain]
    refine Settles.bind (Q := fun next => next.kind = .tuple ∧
      next.elts.length = model.elts.length + 1) ?_ fun next hnext => ?_
    · exact (F.expr elt).bind fun t ht => .pure (Container.push_tuple hkind ht.isUndefined)
    · rw [List.length_cons, Nat.add_comm rest.length 1, ← Nat.add_assoc, ← hnext.2]
      exact ih hrest next hnext.1

theorem checkDict (items : List (Option Expr × Expr)) :
    Settles c (Check.checkDict inner items) (Check.checkDict other items) Ty.Settled := by
  refine Settles.bind (.foldlM (R := fun model => (Ty.container model).Settled)
    (Ty.settled_empty .dict) fun item _ model hmodel => ?_) fun model hmodel => .pure hmodel
  cases item.1 with
  | some key =>
    exact (F.expr key).bind fun k hk => (F.expr item.2).bind fun value hvalue =>
      .pure (stable.pushPair hmodel hk hvalue)
  | none =>
    refine (F.expr item.2).bind fun spread hspread => ?_
    cases spread with
    | container spread =>
      refine .pure ?_
      split
      · exact stable.extendedFrom hmodel hspread fun _ _ => .container hmodel.elts hmodel.values
      · exact hmodel
    | _ => exact .pure hmodel

theorem binaryResult (op : BinaryOp) {left right : Ty} (hleft : left.Settled) (hright : right.Settled)
    (confidence : Float) :
    Settles c (Check.binaryResult inner op left right confidence)
      (Check.binaryResult other op left right confidence) Ty.Settled := by
  refine (F.callSpecialOf left _ (settled_oneArg hright)).bind fun result hresult => ?_
  cases result with
  | some result => exact .pure (hresult result rfl)
  | none =>
    refine (F.callSpecialOf right _ (settled_oneArg hleft)).bind fun result hresult => ?_
    cases result with
    | some result => exact .pure (hresult result rfl)
    | none => exact Settles.plainResult op hleft hright confidence

theorem checkUnary (op : UnaryOp) (operand : Expr) :
    Settles c (Check.checkUnary inner op operand) (Check.checkUnary other op operand)
      Ty.Settled := by
  refine (F.expr operand).bind fun t ht => ?_
  have hplain := stable.applyUnary op ht
  cases unaryMethod? op with
  | some method =>
    refine (F.callSpecialOf t method settled_noArgs).bind fun result hresult => .pure ?_
    cases result with
    | some result => exact hresult result rfl
    | none => exact hplain
  | none => exact .pure hplain

theorem checkCompare (left : Expr) (rest : List (CompareOp × Expr)) :
    Settles c (Check.checkCompare inner left rest) (Check.checkCompare other left rest)
      Ty.Settled := by
  refine (F.expr left).bind fun first hfirst => ?_
  refine Settles.andPure (.foldlM hfirst fun step _ previous hprevious => ?_) (Ty.Settled.prim _)
  refine (F.expr step.2).bind fun right hright => ?_
  split
  · exact (F.callSpecialOf right _ (settled_oneArg hprevious)).andPure hright
  · exact .pure hright

theorem itemType {container : Ty} (hcontainer : container.Settled) (index : Expr) {indexType : Ty}
    (hindex : indexType.Settled) :
    Settles c (Check.itemType inner container index indexType)
      (Check.itemType other container index indexType) Ty.Settled := by
  -- By induction on the size of what the item is in.
  induction container using WellFounded.induction (measure (sizeOf : Ty → Nat)).wf with
  | _ container ih =>
    rw [itemType.eq_def inner, itemType.eq_def other]
    cases container with
    | union u =>
      refine Settles.bind (.mapM fun t _ => ?_) fun results hresults =>
        .pure (stable.oneOf _ hresults)
      exact ih t.1 (Ty.sizeOf_lt_of_mem_union t.2) (hcontainer.ofUnion t.1 t.2)
    | container model =>
      have helement := stable.containerElementType hcontainer
      simp only
      cases model.kind with
      | list => exact .pure helement
      | set => exact .pure helement
      | dict => exact .pure (stable.valueType hcontainer)
      | tuple => exact .pure (stable.tupleItem hcontainer _)
    | prim kind => cases kind <;> exact .pure (by constructor)
    | object id => exact F.callSpecial_getD id _ (settled_oneArg hindex)
    | _ => exact .pure .any

theorem checkSubscript (value index : Expr) :
    Settles c (Check.checkSubscript inner value index) (Check.checkSubscript other value index)
      Ty.Settled := by
  refine (F.expr value).bind fun container hcontainer => ?_
  refine (F.expr index).bind fun indexType hindex => ?_
  split
  · exact .pure (stable.sliced hcontainer)
  · exact F.itemType hcontainer index hindex

theorem narrowTo (subject classes : Expr) :
    Settles c (Check.narrowTo inner subject classes) (Check.narrowTo other subject classes)
      fun _ => True := by
  unfold Check.narrowTo
  split
  · rename_i name _
    refine (F.expr classes).bind fun t _ => (Settles.instanceType? t).bind fun narrowed hnarrowed => ?_
    cases narrowed with
    | none => exact .pure trivial
    | some narrowed =>
      refine getArena.bind fun arena _ => getScopes.bind fun scopes hscopes => ?_
      refine modifyScopes fun s hs => hs.bind _ name ?_
      split
      · exact hnarrowed narrowed rfl
      · refine stable.oneOf_weighted fun item hitem => ?_
        exact stable.alternatives (hscopes.find name) (List.mem_filter.1 hitem).1
  · exact .pure trivial

theorem checkCondition (e : Expr) :
    Settles c (Check.checkCondition inner e) (Check.checkCondition other e) fun _ => True := by
  -- By induction on the size of the condition.
  induction e using WellFounded.induction (measure (sizeOf : Expr → Nat)).wf with
  | _ e ih =>
    have plain : Settles c (inner.expr e >>= fun _ => pure ()) (other.expr e >>= fun _ => pure ())
        fun _ => True := (F.expr e).andPure trivial
    rw [checkCondition.eq_def inner, checkCondition.eq_def other]
    rcases e with ⟨node, form, span⟩
    cases form with
    | boolOp op values =>
      cases op with
      | and => exact .forM fun value _ => ih value.1 (Expr.sizeOf_lt_of_mem_children value.2)
      | or => exact plain
    | call func args keywords =>
      rcases args with _ | ⟨subject, _ | ⟨classes, _ | ⟨_, _⟩⟩⟩
      · exact plain
      · exact plain
      · refine (Settles.namesBuiltin func _).bind fun isTest _ => (F.expr _).bind fun _ _ => ?_
        split
        · exact F.narrowTo subject classes
        · exact .pure trivial
      · exact plain
    | _ => exact plain

theorem inClauses {α : Type} {Q : α → Prop} (clauses : List (Clause Expr)) {x y : CheckM α}
    (hx : Settles c x y Q) :
    Settles c (Check.inClauses inner clauses x) (Check.inClauses other clauses y) Q := by
  refine inScope (Settles.bind (.forIn fun clause _ => ?_) fun _ _ => hx)
  refine (F.expr clause.iter).bind fun iterable hiterable => ?_
  refine (F.iterationType hiterable).bind fun element helement => ?_
  refine (F.assign clause.target helement _ _).bind fun _ _ => ?_
  exact Settles.andPure (.forEach fun condition _ => F.checkCondition condition) trivial

theorem checkComprehension (kind : ContainerKind) (elt : Expr) (clauses : List (Clause Expr)) :
    Settles c (Check.checkComprehension inner kind elt clauses)
      (Check.checkComprehension other kind elt clauses) Ty.Settled := by
  refine (F.inClauses clauses (F.expr elt)).bind fun t ht => ?_
  exact .pure (stable.pushKnown (Ty.settled_empty kind) ht)

theorem checkDictComprehension (key value : Expr) (clauses : List (Clause Expr)) :
    Settles c (Check.checkDictComprehension inner key value clauses)
      (Check.checkDictComprehension other key value clauses) Ty.Settled := by
  refine Settles.bind (F.inClauses (Q := fun pair : Ty × Ty => pair.1.Settled ∧ pair.2.Settled)
    clauses ?_) fun pair h => .pure (stable.pushPair (Ty.settled_empty .dict) h.1 h.2)
  exact (F.expr key).bind fun k hk => (F.expr value).bind fun v hv => .pure ⟨hk, hv⟩

theorem checkLambda (line : Nat) (params : Params Expr) (body : Expr) :
    Settles c (Check.checkLambda inner line params body) (Check.checkLambda other line params body)
      Ty.Settled := by
  refine (F.signatureOf params).bind fun signature hsignature => .get_bind fun s _ => ?_
  refine Settles.bind (withArena (Q := fun _ => True) fun _ ha =>
    ⟨ha.addFunction ⟨hsignature, ?_, ?_, ?_⟩, trivial⟩) fun id _ => .pure (.function id)
  all_goals first
    | exact fun _ h => absurd h (Option.not_mem_none _)
    | exact fun _ h => absurd h List.not_mem_nil

/-- Any expression but an attribute gives what is settled. -/
theorem evaluate {e : Expr} (he : ¬e.IsMember) :
    Settles c (Check.evaluate inner e) (Check.evaluate other e) Ty.Settled := by
  unfold Check.evaluate
  cases hform : e.form with
  | member value attr => exact absurd ⟨value, attr, hform⟩ he
  | name name =>
    refine getScopes.bind fun scopes hscopes => ?_
    split
    · rename_i binding hbinding
      refine .pure ?_
      split
      · exact .any
      · exact hscopes.of_lookup hbinding
    · exact .pure .any
  | number value => cases value <;> exact .pure (.prim _)
  | list elts | tuple elts | set elts => exact F.checkDisplay _ elts
  | dict items => exact F.checkDict items
  | listComp elt clauses | generator elt clauses | setComp elt clauses =>
    exact F.checkComprehension _ elt clauses
  | dictComp key value clauses => exact F.checkDictComprehension key value clauses
  | lambda params body => exact F.checkLambda e.line params body
  | ifExp test body orelse =>
    refine (F.checkCondition test).bind fun _ _ => ?_
    exact (F.expr body).bind fun left hleft => (F.expr orelse).bind fun right hright =>
      .pure (Ty.settled_oneOf_pair hleft.held hright.held)
  | boolOp op values => exact (F.exprs values).bind fun ts hts => .pure (stable.oneOf _ hts)
  | binOp left op right =>
    refine (F.expr left).bind fun l hl => (F.expr right).bind fun r hr => ?_
    refine (confidenceOf left).bind fun p _ => (confidenceOf right).bind fun q _ => ?_
    exact F.binaryResult op hl hr _
  | unaryOp op operand => exact F.checkUnary op operand
  | compare left rest => exact F.checkCompare left rest
  | call func args keywords => exact F.checkCall func args keywords
  | subscript value index => exact F.checkSubscript value index
  | slice lower upper step =>
    exact Settles.andPure (.forIn fun part _ => (F.expr part).andPure trivial) Ty.Settled.any
  | starred value | await value => exact F.expr value
  | yield value =>
    cases value with
    | none => exact (Settles.recordYield (.prim _)).andPure Ty.Settled.any
    | some value => exact (F.expr value).bind fun t ht => (Settles.recordYield ht).andPure Ty.Settled.any
  | yieldFrom value =>
    refine (F.expr value).bind fun t ht => (F.iterationType ht).bind fun element helement => ?_
    exact (Settles.recordYield helement).andPure Ty.Settled.any
  | named target value =>
    refine (F.expr value).bind fun t ht => (confidenceOf value).bind fun confidence _ => ?_
    exact (F.assign target ht confidence _).andPure ht
  | str | bytes | formatStr | bool | noneLiteral => exact .pure (.prim _)
  | ellipsis => exact .pure .any

theorem evaluate_tuple {e : Expr} {n : Nat} (he : e.Displays n) :
    Settles c (Check.evaluate inner e) (Check.evaluate other e) (·.IsTuple n) := by
  obtain ⟨elts, hform, hplain, rfl⟩ := he
  unfold Check.evaluate
  rw [hform]
  exact F.tupleDisplay hplain

theorem evaluate_member {e : Expr} (he : e.IsMember) :
    Settles c (Check.evaluate inner e) (Check.evaluate other e) Ty.Held := by
  obtain ⟨value, attr, hform⟩ := he
  unfold Check.evaluate
  rw [hform]
  exact (F.expr value).bind fun owner howner => (confidenceOf value).bind fun confidence _ =>
    readAttribute howner attr confidence

theorem evaluate_yields (e : Expr) :
    Settles c (Check.evaluate inner e) (Check.evaluate other e) e.Yields := by
  by_cases hmember : e.IsMember
  · refine (F.evaluate_member hmember).imp fun t ht => ⟨ht, fun _ => hmember, fun n hn => ?_⟩
    exact absurd hmember hn.not_isMember
  have hsettled := F.evaluate hmember
  have undefined {t : Ty} (ht : t.Settled) (h : t = .undefined) : e.IsMember := by
    cases h ▸ ht
  by_cases htuple : ∃ n, e.Displays n
  · obtain ⟨n, hn⟩ := htuple
    refine (hsettled.and (F.evaluate_tuple hn)).imp fun t ht => ⟨ht.1.held, undefined ht.1, ?_⟩
    exact fun m hm => hm.unique hn ▸ ht.2
  · exact hsettled.imp fun t ht => ⟨ht.held, undefined ht, fun n hn => absurd ⟨n, hn⟩ htuple⟩

end Check.Settling

end Credence

import Credence.Proofs.Annotation

namespace Credence

open Check
open CheckM (outcome_modify)

/-- A discipline that is kept inside: for the expressions and blocks that may be met there, and for
calls. -/
structure Discipline.Stage (D : Discipline) (c : Context) (N : Sites) (E : Expr → Prop)
    (B : List Stmt → Prop) (inner other : Inner) : Prop extends D.Basic c N where
  expr : ∀ {e : Expr}, E e → D.Holds c (inner.expr e) (other.expr e)
  block : ∀ {b : List Stmt}, B b → D.Holds c (inner.block b) (other.block b)
  call : ∀ (id : FunctionId) (receiver : Option Ty) (args : CallArgs),
    D.Holds c (inner.call id receiver args) (other.call id receiver args)
  children : ∀ {e k : Expr}, E e → k ∈ e.children → E k

/-- A lawful discipline that is kept inside. -/
structure Discipline.Level (D : Discipline) (c : Context) (N : Sites) (E : Expr → Prop)
    (B : List Stmt → Prop) (inner other : Inner) : Prop
    extends D.Stage c N E B inner other, D.Lawful c N

namespace Discipline.Stage

open Discipline.Basic

variable {D : Discipline} {c : Context} {N : Sites} {E : Expr → Prop} {B : List Stmt → Prop}
  {inner other : Inner} (L : D.Stage c N E B inner other)
include L

theorem callSpecial (object : ObjectId) (name : String) (args : CallArgs) :
    D.Holds c (Check.callSpecial inner object name args)
      (Check.callSpecial other object name args) := by
  refine getArena.bind fun arena => ?_
  refine (L.withArena fun a => a.functions_classLookup _ name).bind fun slot => ?_
  rcases slot with _ | _ | f
  · exact .pure _
  · exact .pure _
  · exact getArena.bind fun arena => (L.call f _ args).bind fun t => .pure _

theorem callSpecialOf (value : Ty) (name : String) (args : CallArgs) :
    D.Holds c (Check.callSpecialOf inner value name args)
      (Check.callSpecialOf other value name args) := by
  cases value with
  | object id => exact L.callSpecial id name args
  | _ => exact .pure _

theorem madeByClass (id : ClassId) (args : CallArgs) :
    D.Holds c (Check.madeByClass inner id args) (Check.madeByClass other id args) := by
  refine (L.withArena fun a => a.functions_classLookup id _).bind fun slot => ?_
  rcases slot with _ | _ | f
  · exact .pure _
  · exact .pure _
  · refine (L.call f _ args).bind fun t => ?_
    cases t with
    | object object => exact getArena.bind fun arena => .pure _
    | _ => exact .pure _

theorem addObject (id : ClassId) :
    D.Holds c (CheckM.withArena (·.addObject id)) (CheckM.withArena (·.addObject id)) :=
  L.withArena fun _ => rfl

theorem initialise (id : ClassId) (args : CallArgs) (object : ObjectId) (isMade : Bool) :
    D.Holds c (Check.initialise inner id args object isMade)
      (Check.initialise other id args object isMade) := by
  refine (L.withArena fun a => a.functions_classLookup id _).bind fun slot => ?_
  rcases slot with _ | _ | f
  case some.function => exact (L.call f _ args).bind fun _ => .pure _
  all_goals
    refine getArena.bind fun arena => ?_
    simp only
    split
    · exact defaultProbability.bind fun _ => L.report _
    · exact .pure _

theorem instantiate (id : ClassId) (args : CallArgs) :
    D.Holds c (Check.instantiate inner id args) (Check.instantiate other id args) := by
  refine (L.madeByClass id args).bind fun made => ?_
  cases made with
  | some object => exact (L.initialise id args object true).bind fun _ => .pure _
  | none =>
    refine (L.addObject id).bind fun object => ?_
    exact (L.initialise id args object false).bind fun _ => .pure _

theorem callType (callee : Ty) (args : CallArgs) :
    D.Holds c (Check.callType inner callee args) (Check.callType other callee args) := by
  induction callee using WellFounded.induction (measure (sizeOf : Ty → Nat)).wf with
  | _ callee ih =>
    rw [callType.eq_def inner, callType.eq_def other]
    cases callee with
    | union u =>
      refine Holds.bind (.mapM fun t _ => ?_) fun results => .pure _
      exact ih t.1 (Ty.sizeOf_lt_of_mem_union t.2)
    | builtin b =>
      simp only
      split
      · exact (L.warn _).bind fun _ => .pure _
      · exact .pure _
    | function id => exact getArena.bind fun arena => L.call id _ args
    | method object id => exact L.call id _ args
    | classObj id => exact L.instantiate id args
    | object id => exact (L.callSpecial id _ args).bind fun _ => .pure _
    | _ => exact .pure _

theorem iterationType (iterable : Ty) :
    D.Holds c (Check.iterationType inner iterable) (Check.iterationType other iterable) := by
  induction iterable using WellFounded.induction (measure (sizeOf : Ty → Nat)).wf with
  | _ iterable ih =>
    rw [iterationType.eq_def inner, iterationType.eq_def other]
    cases iterable with
    | object id =>
      refine (L.callSpecial id _ _).bind fun result => ?_
      rcases result with _ | t
      · exact .pure _
      · cases t with
        | object iterator => exact (L.callSpecial iterator _ _).bind fun _ => .pure _
        | _ => exact .pure _
    | union u =>
      refine Holds.bind (.mapM fun t _ => ?_) fun elements => .pure _
      exact ih t.1 (Ty.sizeOf_lt_of_mem_union t.2)
    | _ => exact .pure _

theorem instanceType? (classes : Ty) :
    D.Holds c (Check.instanceType? classes) (Check.instanceType? classes) := by
  induction classes using WellFounded.induction (measure (sizeOf : Ty → Nat)).wf with
  | _ classes ih =>
    rw [instanceType?.eq_def]
    cases classes with
    | classObj id => exact (L.standIn id).bind fun _ => .pure _
    | builtin b =>
      simp only
      split <;> exact .pure _
    | container model =>
      simp only
      split
      · refine Holds.bind (.mapM fun t _ => ?_) fun found => .pure _
        exact ih t.1 (Ty.sizeOf_lt_of_mem_elts t.2)
      · exact .pure _
    | _ => exact .pure _

theorem rebindContainer {e : Expr} (grown : Ty) (he : ∀ k ∈ e.children, E k) :
    D.Holds c (Check.rebindContainer inner e grown) (Check.rebindContainer other e grown) := by
  unfold Check.rebindContainer
  simp only [Expr.children] at he
  cases h : e.form with
  | name name => exact L.modifyScopes fun s => s.confined_update name grown
  | member value attr =>
    refine (L.expr (he value (by simp [h, ExprForm.children]))).bind fun owner => ?_
    exact L.modifyArena fun a => a.functions_replaceAttribute owner attr grown
  | _ => exact .pure _

theorem storeItem {container index : Expr} (value : Ty) (hc : E container) (hi : E index) :
    D.Holds c (Check.storeItem inner container index value)
      (Check.storeItem other container index value) := by
  refine (L.expr hc).bind fun holder => (L.expr hi).bind fun place => ?_
  cases holder with
  | container model =>
    simp only
    split
    · split
      · exact L.rebindContainer _ fun k hk => L.children hc hk
      · exact .pure _
    · exact .pure _
  | object id => exact (L.callSpecial id _ _).bind fun _ => .pure _
  | _ => exact .pure _

theorem assign {target : Expr} (value : Ty) (confidence : Float) (mode : BindMode)
    (ht : E target) :
    D.Holds c (Check.assign inner target value confidence mode)
      (Check.assign other target value confidence mode) := by
  induction target using WellFounded.induction (measure (sizeOf : Expr → Nat)).wf
    generalizing value with
  | _ target ih =>
    have part {k : Expr} (hk : k ∈ target.form.children) : E k := L.children ht hk
    -- The targets in a tuple or a list, without their stars.
    have parts {targets : List Expr} (h : ∀ k ∈ targets, k ∈ target.form.children) :
        D.Holds c
          ((distribute targets value).attach.forM fun item =>
            Check.assign inner item.1.1 item.1.2 confidence mode)
          ((distribute targets value).attach.forM fun item =>
            Check.assign other item.1.1 item.1.2 confidence mode) := by
      refine .forM fun item _ => ?_
      obtain ⟨t, hm, hi⟩ := mem_distribute item.2
      have hlt : sizeOf t < sizeOf target := Expr.sizeOf_lt_of_mem_children (h t hm)
      rcases hi with hi | hi
      · rw [hi]
        exact ih t hlt _ (part (h t hm))
      · rw [hi]
        refine ih _ (Nat.lt_of_le_of_lt t.sizeOf_unstarred_le hlt) _ ?_
        unfold Expr.unstarred Expr.starred?
        split
        · rename_i k hk
          exact L.children (part (h t hm)) (by simp [Expr.children, hk, ExprForm.children])
        · exact part (h t hm)
    rw [assign.eq_def inner, assign.eq_def other]
    rcases target with ⟨node, form, span⟩
    cases form with
    | name name =>
      cases mode with
      | checked => exact L.bindName name value confidence
      | fresh => exact L.setName name value confidence
    | member owner attr =>
      refine (L.expr (part (by simp [ExprForm.children]))).bind fun owner => .get_bind ?_
      intro s hs
      refine Ends.bind (.of_ok (outcome_modify c s _) ?_) fun _ t _ ht => ?_
      · exact L.minor_arena hs (s.arena.functions_setAttribute owner attr value)
      · split
        · exact Holds.pure _ t ht
        · exact L.fail _ _ t ht
    | subscript container index =>
      exact L.storeItem value (part (by simp [ExprForm.children]))
        (part (by simp [ExprForm.children]))
    | tuple targets => exact parts fun k hk => hk
    | list targets => exact parts fun k hk => hk
    | starred starred =>
      have h : starred ∈ (ExprForm.starred starred).children := by simp [ExprForm.children]
      exact ih starred (Expr.sizeOf_lt_of_mem_children h) _ (part h)
    | _ => exact L.fail _ _

theorem paramInfo (p : Param Expr) {default? : Option Expr} (h : ∀ e ∈ default?, E e) :
    D.Holds c (Check.paramInfo inner p default?) (Check.paramInfo other p default?) := by
  refine Holds.bind (.optionMapM fun e _ => L.ascription e) fun ascribed => ?_
  exact Holds.bind (.optionMapM fun e he => L.expr (h e he)) fun default => .pure _

theorem signatureOf {params : Params Expr} (h : ∀ e ∈ params.defaultExprs, E e) :
    D.Holds c (Check.signatureOf inner params) (Check.signatureOf other params) := by
  have positional (i : Nat) : ∀ e ∈ params.defaultFor? i, E e := by
    intro e he
    unfold Params.defaultFor? at he
    simp only at he
    split at he
    · exact h e (List.mem_append_left _ (List.mem_of_getElem? he))
    · cases he
  have keyword (i : Nat) : ∀ e ∈ (params.kwDefaults[i]?).join, E e := by
    intro e he
    have he : params.kwDefaults[i]? = some (some e) := Option.join_eq_some_iff.1 he
    refine h e (List.mem_append_right _ (List.mem_filterMap.2 ⟨some e, ?_, rfl⟩))
    exact List.mem_of_getElem? he
  refine Holds.bind (.mapM fun p _ => L.paramInfo p.1 (positional p.2)) fun args => ?_
  refine Holds.bind (.optionMapM fun p _ => L.paramInfo p (by simp)) fun vararg => ?_
  refine Holds.bind (.mapM fun p _ => L.paramInfo p.1 (keyword p.2)) fun kwonly => ?_
  exact Holds.bind (.optionMapM fun p _ => L.paramInfo p (by simp)) fun kwarg => .pure _

omit L in
theorem namesBuiltin (func : Expr) (name : String) :
    D.Holds c (Check.namesBuiltin func name) (Check.namesBuiltin func name) := by
  unfold Check.namesBuiltin
  split
  · refine getScopes.bind fun scopes => ?_
    split <;> exact .pure _
  · exact .pure _

theorem starredOr {e k : Expr} (he : E e) (hk : e.starred? = some k) : E k := by
  unfold Expr.starred? at hk
  split at hk
  · rename_i value hform
    cases hk
    exact L.children he (by simp [Expr.children, hform, ExprForm.children])
  · cases hk

theorem arguments {args : List Expr} {keywords : List (Keyword Expr)} (ha : ∀ e ∈ args, E e)
    (hk : ∀ k ∈ keywords, E k.value) :
    D.Holds c (Check.arguments inner args keywords) (Check.arguments other args keywords) := by
  refine Holds.bind (.foldlM fun arg harg result => ?_) fun spread => ?_
  · cases hs : arg.starred? with
    | none => exact (L.expr (ha arg harg)).bind fun t => .pure _
    | some spread =>
      refine (L.expr (L.starredOr (ha arg harg) hs)).bind fun t => ?_
      cases t with
      | container model =>
        simp only
        split <;> exact .pure _
      | _ => exact .pure _
  · refine .foldlM fun keyword hkeyword result => ?_
    refine (L.expr (hk keyword hkeyword)).bind fun value => ?_
    cases keyword.arg <;> exact .pure _

theorem reportNonClasses (arg : Expr) (candidate : Ty) (confidence : Float) :
    D.Holds c (Check.reportNonClasses arg candidate confidence)
      (Check.reportNonClasses arg candidate confidence) := by
  refine Holds.bind (.forIn fun item _ _ => ?_) fun _ => .pure _
  rcases item with ⟨t, prob⟩
  simp only
  split
  all_goals first
    | exact .pure _
    | exact (display _).bind fun _ => (L.report _).bind fun _ => .pure _

theorem checkSubclassTest {args : List Expr} (ha : ∀ e ∈ args, E e) :
    D.Holds c (Check.checkSubclassTest inner args) (Check.checkSubclassTest other args) := by
  refine Holds.bind (.forIn fun arg harg _ => ?_) fun _ => .pure _
  refine (L.expr (ha arg harg)).bind fun t => (confidenceOf arg).bind fun confidence => ?_
  refine Holds.bind (.forIn fun candidate _ _ => ?_) fun _ => .pure _
  exact (L.reportNonClasses arg candidate confidence).bind fun _ => .pure _

theorem checkPlainCall {func : Expr} {args : List Expr} {keywords : List (Keyword Expr)}
    (hf : E func) (ha : ∀ e ∈ args, E e) (hk : ∀ k ∈ keywords, E k.value) :
    D.Holds c (Check.checkPlainCall inner func args keywords)
      (Check.checkPlainCall other func args keywords) := by
  unfold Check.checkPlainCall
  cases h : func.form with
  | member value attr =>
    have hv : E value := L.children hf (by simp [Expr.children, h, ExprForm.children])
    refine (L.expr hv).bind fun receiver => (confidenceOf value).bind fun confidence => ?_
    refine (L.readAttribute receiver attr confidence).bind fun callee => ?_
    refine (L.arguments ha hk).bind fun callArgs => ?_
    refine (L.callType callee callArgs).bind fun result => ?_
    split
    · exact (L.rebindContainer _ fun k hk => L.children hv hk).bind fun _ => .pure _
    · exact .pure _
  | _ =>
    refine (L.expr hf).bind fun callee => (L.arguments ha hk).bind fun callArgs => ?_
    exact L.callType callee callArgs

theorem checkCall {func : Expr} {args : List Expr} {keywords : List (Keyword Expr)}
    (hf : E func) (ha : ∀ e ∈ args, E e) (hk : ∀ k ∈ keywords, E k.value) :
    D.Holds c (Check.checkCall inner func args keywords)
      (Check.checkCall other func args keywords) := by
  have plain := L.checkPlainCall hf ha hk
  refine (namesBuiltin func _).bind fun isTest => (namesBuiltin func _).bind fun asksName => ?_
  split
  · exact (L.arguments ha hk).bind fun _ => .pure _
  refine (namesBuiltin func _).bind fun isSubclassTest => ?_
  split
  · exact L.checkSubclassTest ha
  refine (namesBuiltin func _).bind fun isType => ?_
  split
  · rcases args with _ | ⟨arg, _ | ⟨_, _⟩⟩
    · exact plain
    · refine (L.expr (ha arg (by simp))).bind fun t => ?_
      cases t with
      | object id => exact getArena.bind fun arena => .pure _
      | _ => exact .pure _
    · exact plain
  · exact plain

theorem checkDisplay {kind : ContainerKind} {elts : List Expr} (h : ∀ e ∈ elts, E e) :
    D.Holds c (Check.checkDisplay inner kind elts) (Check.checkDisplay other kind elts) := by
  refine Holds.bind (.foldlM fun elt helt model => ?_) fun model => .pure _
  cases hs : elt.starred? with
  | none => exact (L.expr (h elt helt)).bind fun t => .pure _
  | some spread => exact (L.expr (L.starredOr (h elt helt) hs)).bind fun t => .pure _

theorem checkDict {items : List (Option Expr × Expr)} (hk : ∀ i ∈ items, ∀ e ∈ i.1, E e)
    (hv : ∀ i ∈ items, E i.2) :
    D.Holds c (Check.checkDict inner items) (Check.checkDict other items) := by
  refine Holds.bind (.foldlM fun item hi model => ?_) fun model => .pure _
  cases h : item.1 with
  | some key =>
    refine (L.expr (hk item hi key h)).bind fun key => ?_
    exact (L.expr (hv item hi)).bind fun value => .pure _
  | none =>
    refine (L.expr (hv item hi)).bind fun spread => ?_
    cases spread with
    | container spread => exact .pure _
    | _ => exact .pure _

theorem plainResult (op : BinaryOp) (left right : Ty) (confidence : Float) :
    D.Holds c (Check.plainResult op left right confidence)
      (Check.plainResult op left right confidence) := by
  refine getArena.bind fun arena => ?_
  cases arena.combine op left right with
  | ok t => exact .pure _
  | error mismatch => exact (L.report _).bind fun _ => .pure _

theorem binaryResult (op : BinaryOp) (left right : Ty) (confidence : Float) :
    D.Holds c (Check.binaryResult inner op left right confidence)
      (Check.binaryResult other op left right confidence) := by
  refine (L.callSpecialOf left _ _).bind fun result => ?_
  cases result with
  | some result => exact .pure _
  | none =>
    refine (L.callSpecialOf right _ _).bind fun result => ?_
    cases result with
    | some result => exact .pure _
    | none => exact L.plainResult op left right confidence

theorem checkUnary {op : UnaryOp} {operand : Expr} (h : E operand) :
    D.Holds c (Check.checkUnary inner op operand) (Check.checkUnary other op operand) := by
  refine (L.expr h).bind fun t => ?_
  cases unaryMethod? op with
  | some method => exact (L.callSpecialOf t method _).bind fun _ => .pure _
  | none => exact .pure _

theorem checkCompare {left : Expr} {rest : List (CompareOp × Expr)} (hl : E left)
    (hr : ∀ step ∈ rest, E step.2) :
    D.Holds c (Check.checkCompare inner left rest) (Check.checkCompare other left rest) := by
  refine (L.expr hl).bind fun first => ?_
  refine Holds.bind (.foldlM fun step hstep previous => ?_) fun _ => .pure _
  refine (L.expr (hr step hstep)).bind fun right => ?_
  split
  · exact (L.callSpecialOf right _ _).bind fun _ => .pure _
  · exact .pure _

theorem itemType (container : Ty) (index : Expr) (indexType : Ty) :
    D.Holds c (Check.itemType inner container index indexType)
      (Check.itemType other container index indexType) := by
  induction container using WellFounded.induction (measure (sizeOf : Ty → Nat)).wf with
  | _ container ih =>
    rw [itemType.eq_def inner, itemType.eq_def other]
    cases container with
    | union u =>
      refine Holds.bind (.mapM fun t _ => ?_) fun results => .pure _
      exact ih t.1 (Ty.sizeOf_lt_of_mem_union t.2)
    | container model =>
      simp only
      cases model.kind <;> exact .pure _
    | prim kind => cases kind <;> exact .pure _
    | object id => exact (L.callSpecial id _ _).bind fun _ => .pure _
    | _ => exact .pure _

theorem checkSubscript {value index : Expr} (hv : E value) (hi : E index) :
    D.Holds c (Check.checkSubscript inner value index)
      (Check.checkSubscript other value index) := by
  refine (L.expr hv).bind fun container => (L.expr hi).bind fun indexType => ?_
  split
  · exact .pure _
  · exact L.itemType container index indexType

theorem narrowTo (subject : Expr) {classes : Expr} (h : E classes) :
    D.Holds c (Check.narrowTo inner subject classes) (Check.narrowTo other subject classes) := by
  unfold Check.narrowTo
  split
  · rename_i name _
    refine (L.expr h).bind fun t => (L.instanceType? t).bind fun narrowed => ?_
    cases narrowed with
    | none => exact .pure _
    | some narrowed =>
      refine getArena.bind fun arena => getScopes.bind fun scopes => ?_
      exact L.modifyScopes fun s => s.confined_narrow name _
  · exact .pure _

theorem checkCondition {e : Expr} (he : E e) :
    D.Holds c (Check.checkCondition inner e) (Check.checkCondition other e) := by
  induction e using WellFounded.induction (measure (sizeOf : Expr → Nat)).wf with
  | _ e ih =>
    have plain : D.Holds c (inner.expr e >>= fun _ => pure ()) (other.expr e >>= fun _ => pure ()) :=
      (L.expr he).bind fun _ => .pure _
    rw [checkCondition.eq_def inner, checkCondition.eq_def other]
    rcases e with ⟨node, form, span⟩
    cases form with
    | boolOp op values =>
      cases op with
      | and =>
        refine .forM fun value _ => ?_
        exact ih value.1 (Expr.sizeOf_lt_of_mem_children value.2) (L.children he value.2)
      | or => exact plain
    | call func args keywords =>
      rcases args with _ | ⟨subject, _ | ⟨classes, _ | ⟨_, _⟩⟩⟩
      · exact plain
      · exact plain
      · refine (namesBuiltin func _).bind fun isTest => (L.expr he).bind fun _ => ?_
        split
        · exact L.narrowTo subject (L.children he (by simp [Expr.children, ExprForm.children]))
        · exact .pure _
      · exact plain
    | _ => exact plain

theorem inClauses {α : Type} {clauses : List (Clause Expr)} {x y : CheckM α}
    (h : ∀ e ∈ clauses.flatMap Clause.parts, E e) (hx : D.Holds c x y) :
    D.Holds c (Check.inClauses inner clauses x) (Check.inClauses other clauses y) := by
  refine L.inScope (Holds.bind (.forIn fun clause hclause _ => ?_) fun _ => hx)
  have part {e : Expr} (he : e ∈ clause.parts) : E e :=
    h e (List.mem_flatMap.2 ⟨clause, hclause, he⟩)
  refine (L.expr (part (by simp [Clause.parts]))).bind fun iterable => ?_
  refine (L.iterationType iterable).bind fun element => ?_
  refine (L.assign element _ _ (part (by simp [Clause.parts]))).bind fun _ => ?_
  refine Holds.bind (.forIn fun condition hcondition _ => ?_) fun _ => .pure _
  exact (L.checkCondition (part (by simp [Clause.parts, hcondition]))).bind fun _ => .pure _

theorem checkComprehension {kind : ContainerKind} {elt : Expr} {clauses : List (Clause Expr)}
    (he : E elt) (h : ∀ e ∈ clauses.flatMap Clause.parts, E e) :
    D.Holds c (Check.checkComprehension inner kind elt clauses)
      (Check.checkComprehension other kind elt clauses) :=
  (L.inClauses h (L.expr he)).bind fun _ => .pure _

theorem checkDictComprehension {key value : Expr} {clauses : List (Clause Expr)}
    (hk : E key) (hv : E value) (h : ∀ e ∈ clauses.flatMap Clause.parts, E e) :
    D.Holds c (Check.checkDictComprehension inner key value clauses)
      (Check.checkDictComprehension other key value clauses) := by
  refine Holds.bind (L.inClauses h ?_) fun _ => .pure _
  exact (L.expr hk).bind fun k => (L.expr hv).bind fun v => .pure _

theorem checkLambda {line : Nat} {params : Params Expr} {body : Expr}
    (h : ∀ e ∈ params.defaultExprs, E e) (hsite : N (.lambda body) line "<lambda>") :
    D.Holds c (Check.checkLambda inner line params body)
      (Check.checkLambda other line params body) := by
  refine (L.signatureOf h).bind fun signature => .get_bind fun s hs => ?_
  refine Ends.bind (.of_ok (CheckM.outcome_modifyGet c s _) ?_) fun id t _ ht => Holds.pure _ t ht
  exact L.define hs ⟨rfl, rfl, rfl, s.scopes.encloses_current, hsite⟩

theorem recordYield (t : Ty) : D.Holds c (Check.recordYield t) (Check.recordYield t) := by
  refine .modify fun s hs => L.minor hs ?_
  cases h : s.frames with
  | nil => exact .refl s
  | cons frame rest => exact { Session.Minor.refl s with frames := by simp [h] }

structure Evaluable (N : Sites) (E : Expr → Prop) (e : Expr) : Prop where
  children : ∀ k ∈ e.form.children, E k
  site : ∀ params body, e.form = .lambda params body → N (.lambda body) e.line "<lambda>"

omit L in
theorem Evaluable.imp {F : Expr → Prop} {e : Expr} (he : Evaluable N E e) (h : ∀ k, E k → F k) :
    Evaluable N F e :=
  ⟨fun k hk => h k (he.children k hk), he.site⟩

theorem evaluate {e : Expr} (he : Evaluable N E e) :
    D.Holds c (Check.evaluate inner e) (Check.evaluate other e) := by
  have part := he.children
  have site := he.site
  unfold Check.evaluate
  cases h : e.form with
  | name name =>
    refine getScopes.bind fun scopes => ?_
    split <;> exact .pure _
  | number value => cases value <;> exact .pure _
  | list elts | tuple elts | set elts =>
    rw [h] at part
    exact L.checkDisplay part
  | dict items =>
    rw [h] at part
    refine L.checkDict (fun i hi k hk => part k ?_) fun i hi => part i.2 ?_
    · exact List.mem_flatMap.2 ⟨i, hi, List.mem_append_left _ (Option.mem_toList.2 hk)⟩
    · exact List.mem_flatMap.2 ⟨i, hi, List.mem_append_right _ (List.mem_singleton_self i.2)⟩
  | listComp elt clauses | generator elt clauses | setComp elt clauses =>
    rw [h] at part
    exact L.checkComprehension (part elt (by simp [ExprForm.children])) fun k hk =>
      part k (List.mem_cons_of_mem _ hk)
  | dictComp key value clauses =>
    rw [h] at part
    exact L.checkDictComprehension (part key (by simp [ExprForm.children]))
      (part value (by simp [ExprForm.children])) fun k hk =>
      part k (List.mem_cons_of_mem _ (List.mem_cons_of_mem _ hk))
  | lambda params body =>
    rw [h] at part
    exact L.checkLambda (fun k hk => part k (List.mem_append_left _ hk)) (site params body h)
  | ifExp test body orelse =>
    rw [h] at part
    refine (L.checkCondition (part test (by simp [ExprForm.children]))).bind fun _ => ?_
    refine (L.expr (part body (by simp [ExprForm.children]))).bind fun t => ?_
    exact (L.expr (part orelse (by simp [ExprForm.children]))).bind fun _ => .pure _
  | boolOp op values =>
    rw [h] at part
    exact Holds.bind (.mapM fun value hvalue => L.expr (part value hvalue)) fun _ => .pure _
  | binOp left op right =>
    rw [h] at part
    refine (L.expr (part left (by simp [ExprForm.children]))).bind fun l => ?_
    refine (L.expr (part right (by simp [ExprForm.children]))).bind fun r => ?_
    refine (confidenceOf left).bind fun p => (confidenceOf right).bind fun q => ?_
    exact L.binaryResult op l r _
  | unaryOp op operand =>
    rw [h] at part
    exact L.checkUnary (part operand (by simp [ExprForm.children]))
  | compare left rest =>
    rw [h] at part
    refine L.checkCompare (part left (by simp [ExprForm.children])) fun step hstep => part _ ?_
    exact List.mem_cons_of_mem _ (List.mem_map.2 ⟨step, hstep, rfl⟩)
  | call func args keywords =>
    rw [h] at part
    refine L.checkCall (part func (by simp [ExprForm.children])) (fun k hk => part k ?_)
      fun k hk => part k.value ?_
    · exact List.mem_append_left _ (List.mem_cons_of_mem _ hk)
    · exact List.mem_append_right _ (List.mem_map.2 ⟨k, hk, rfl⟩)
  | member value attr =>
    rw [h] at part
    refine (L.expr (part value (by simp [ExprForm.children]))).bind fun owner => ?_
    exact (confidenceOf value).bind fun confidence => L.readAttribute owner attr confidence
  | subscript value index =>
    rw [h] at part
    exact L.checkSubscript (part value (by simp [ExprForm.children]))
      (part index (by simp [ExprForm.children]))
  | slice lower upper step =>
    rw [h] at part
    refine Holds.bind (.forIn fun k hk _ => ?_) fun _ => .pure _
    exact (L.expr (part k hk)).bind fun _ => .pure _
  | starred value | await value =>
    rw [h] at part
    exact L.expr (part value (by simp [ExprForm.children]))
  | yield value =>
    rw [h] at part
    cases value with
    | none => exact (L.recordYield _).bind fun _ => .pure _
    | some value =>
      refine (L.expr (part value (by simp [ExprForm.children]))).bind fun t => ?_
      exact (L.recordYield t).bind fun _ => .pure _
  | yieldFrom value =>
    rw [h] at part
    refine (L.expr (part value (by simp [ExprForm.children]))).bind fun t => ?_
    refine (L.iterationType t).bind fun element => ?_
    exact (L.recordYield element).bind fun _ => .pure _
  | named target value =>
    rw [h] at part
    refine (L.expr (part value (by simp [ExprForm.children]))).bind fun t => ?_
    refine (confidenceOf value).bind fun confidence => ?_
    exact (L.assign t confidence _ (part target (by simp [ExprForm.children]))).bind fun _ =>
      .pure _
  | str | bytes | formatStr | bool | noneLiteral | ellipsis => exact .pure _

theorem exprOver {e : Expr} (he : Evaluable N E e) :
    D.Holds c (Check.exprOver inner e) (Check.exprOver other e) := by
  refine stamp.bind fun before => Holds.bind (.modifyGet fun s hs => ?_) fun known => ?_
  · exact L.minor hs (s.minor_recall _ _ before)
  cases known with
  | some t => exact .pure _
  | none =>
    refine (L.evaluate he).bind fun inferred => (hint? e).bind fun hint => .get_bind fun s hs => ?_
    exact Ends.of_ok rfl (L.minor hs (s.minor_store _ _ _ rfl))

end Discipline.Stage

end Credence

import Credence.Check.Expr
import Credence.Proofs.Changes
import Credence.Proofs.Parallel
import Credence.Proofs.Results

namespace Credence

open Check

namespace Pairing

variable {P : Pairing} {e k : Expr} {x : String}

/-- A node that may be met: it defines nothing, mentions names that are read and binds names that are changed. -/
structure Admits (P : Pairing) (n : Node) : Prop where
  plain : n.isPlain = true
  own : ∀ x ∈ n.changes, P.own x
  reads : ∀ x, n.Mentions x → P.reads x

def AdmitsExpr (P : Pairing) (e : Expr) : Prop :=
  ∀ k ∈ e.nodes, P.Admits (.expr k)

namespace AdmitsExpr

variable (h : P.AdmitsExpr e)
include h

theorem self : P.Admits (.expr e) := by
  refine h e ?_
  rw [Expr.nodes_eq]
  exact List.mem_cons_self

theorem child (hk : k ∈ e.form.children) : P.AdmitsExpr k := by
  intro n hn
  refine h n ?_
  rw [Expr.nodes_eq]
  exact List.mem_cons_of_mem e (List.mem_flatMap.2 ⟨k, List.mem_append_right _ hk, hn⟩)

theorem name (hx : e.form = .name x) : P.reads x :=
  h.self.reads x (.name hx)

theorem starred (hk : e.starred? = some k) : P.AdmitsExpr k := by
  unfold Expr.starred? at hk
  split at hk
  · rename_i value hform
    cases hk
    exact h.child (by simp [hform, ExprForm.children])
  · cases hk

theorem unstarred : P.AdmitsExpr e.unstarred := by
  unfold Expr.unstarred
  cases hk : e.starred? with
  | none => exact h
  | some k => exact h.starred hk

end AdmitsExpr

end Pairing

theorem Expr.boundNames_unstarred (e : Expr) : e.unstarred.boundNames = e.boundNames := by
  unfold unstarred starred?
  split
  · rename_i value hform
    rw [boundNames.eq_def e]
    split <;> simp_all
  · rfl

namespace Check.Parallel

open Pairing

variable {c : Context} {P : Pairing} {spine : List Nat}

theorem stable : Ty.Stable Ty.Closed :=
  Ty.Sound.stable

section Calls

variable (inner other : Inner)

theorem callSpecialOf {value : Ty} (hvalue : value.Closed) (name : String) (args args' : CallArgs) :
    Parallel c P spine (Check.callSpecialOf inner value name args) (Check.callSpecialOf other value name args')
      (· = none) := by
  cases hvalue with
  | object h => exact h.elim
  | _ => exact .pure rfl

theorem callType {callee : Ty} (hcallee : callee.Closed) {args : CallArgs} (hargs : ∀ t ∈ args.positional, t.Closed) :
    Parallel c P spine (Check.callType inner callee args) (Check.callType other callee args) Ty.Closed := by
  -- By induction on the size of the callee.
  induction callee using WellFounded.induction (measure (sizeOf : Ty → Nat)).wf with
  | _ callee ih =>
    rw [callType.eq_def inner, callType.eq_def other]
    cases hcallee with
    | union normal elts =>
      refine Parallel.bind (.mapM fun t _ => ?_) fun results hresults => .pure (stable.oneOf _ hresults)
      exact ih t.1 (Ty.sizeOf_lt_of_mem_union t.2) (elts t.1 t.2)
    | builtin params ret =>
      have hresult := stable.resolve ret hargs
      simp only
      split
      · exact (warn _ _).andPure hresult
      · exact .pure hresult
    | function h | method h | classObj h | object h => exact h.elim
    | _ => exact .pure .any

theorem iterationType {iterable : Ty} (hiterable : iterable.Closed) :
    Parallel c P spine (Check.iterationType inner iterable) (Check.iterationType other iterable) Ty.Closed := by
  -- By induction on the size of what is iterated over.
  induction iterable using WellFounded.induction (measure (sizeOf : Ty → Nat)).wf with
  | _ iterable ih =>
    have helement := stable.elementType hiterable
    rw [iterationType.eq_def inner, iterationType.eq_def other]
    cases hiterable with
    | object h => exact h.elim
    | union normal elts =>
      refine Parallel.bind (.mapM fun t _ => ?_) fun elements helements => .pure (stable.oneOf _ helements)
      exact ih t.1 (Ty.sizeOf_lt_of_mem_union t.2) (elts t.1 t.2)
    | _ => exact .pure helement

theorem itemType {container : Ty} (hcontainer : container.Closed) (index : Expr) (indexType : Ty) :
    Parallel c P spine (Check.itemType inner container index indexType)
      (Check.itemType other container index indexType) Ty.Closed := by
  -- By induction on the size of what the item is in.
  induction container using WellFounded.induction (measure (sizeOf : Ty → Nat)).wf with
  | _ container ih =>
    rw [itemType.eq_def inner, itemType.eq_def other]
    cases container with
    | union u =>
      refine Parallel.bind (.mapM fun t _ => ?_) fun results hresults => .pure (stable.oneOf _ hresults)
      exact ih t.1 (Ty.sizeOf_lt_of_mem_union t.2) (hcontainer.ofUnion t.1 t.2)
    | container model =>
      have helement := stable.containerElementType hcontainer
      simp only
      cases model.kind with
      | list => exact .pure helement
      | set => exact .pure helement
      | dict => exact .pure (stable.valueType hcontainer)
      | tuple => exact .pure (stable.tupleItem hcontainer _)
    | prim kind => cases kind <;> exact .pure (by constructor)
    | object id =>
      cases hcontainer
      contradiction
    | _ => exact .pure .any

end Calls

theorem instanceType? {classes : Ty} (hclasses : classes.Closed) :
    Parallel c P spine (Check.instanceType? classes) (Check.instanceType? classes) fun found =>
      ∀ t ∈ found, t.Closed := by
  -- By induction on the size of the class arguments.
  induction classes using WellFounded.induction (measure (sizeOf : Ty → Nat)).wf with
  | _ classes ih =>
    rw [instanceType?.eq_def]
    cases classes with
    | classObj id =>
      cases hclasses
      contradiction
    | builtin b =>
      simp only
      split
      · exact .pure fun _ h => Option.mem_some.1 h ▸ .prim _
      · exact .pure fun _ h => Option.mem_some.1 h ▸ stable.empty _
      · exact .pure fun t ht => absurd ht (Option.not_mem_none t)
    | container model =>
      simp only
      split
      · refine Parallel.bind (.mapM fun t _ => ih t.1 (Ty.sizeOf_lt_of_mem_elts t.2) (hclasses.elts t.1 t.2))
          fun found hfound => .pure fun t ht => ?_
        split at ht
        · cases ht
        · refine Option.mem_some.1 ht ▸ stable.oneOf _ fun t ht => ?_
          obtain ⟨o, ho, hid⟩ := List.mem_filterMap.1 ht
          exact hfound o ho t hid
      · exact .pure fun t ht => absurd ht (Option.not_mem_none t)
    | _ => exact .pure fun t ht => absurd ht (Option.not_mem_none t)

theorem namesBuiltin {func : Expr} (hfunc : P.AdmitsExpr func) (name : String) :
    Parallel c P spine (Check.namesBuiltin func name) (Check.namesBuiltin func name) fun _ => True := by
  unfold Check.namesBuiltin
  split
  · rename_i hname
    have hread := hfunc.name (Expr.asName?_eq_some.1 (beq_iff_eq.1 hname))
    refine getScopes_bind fun s t hst => ?_
    rw [(hst.find hread).1]
    split <;> exact .pure trivial
  · exact .pure trivial

theorem reportNonClasses (arg : Expr) (candidate : Ty) (confidence : Float) :
    Parallel c P spine (Check.reportNonClasses arg candidate confidence)
      (Check.reportNonClasses arg candidate confidence) fun _ => True := by
  refine Parallel.andPure (.forIn fun item _ => ?_) trivial
  rcases item with ⟨type, prob⟩
  simp only
  split
  all_goals first
    | exact .pure trivial
    | exact display_bind fun _ _ => (report _ _).andPure trivial

theorem plainResult (op : BinaryOp) {left right : Ty} (hleft : left.Closed) (hright : right.Closed)
    (confidence : Float) :
    Parallel c P spine (Check.plainResult op left right confidence)
      (Check.plainResult op left right confidence) Ty.Closed := by
  refine getArena_bind ?_
  rw [Arena.combine_eq_of_closed hleft hright op P.left.arena P.right.arena]
  cases hcombine : P.left.arena.combine op left right with
  | ok result => exact .pure (stable.combine hleft hright hcombine)
  | error mismatch => exact (report _ _).andPure (R := Ty.Closed) .any

theorem recordYield {t : Ty} (ht : t.Closed) :
    Parallel c P spine (Check.recordYield t) (Check.recordYield t) fun _ => True := by
  refine .modify fun s s' hst => ?_
  have hframes := hst.frames
  generalize hs : s.frames = frames at hframes
  generalize hs' : s'.frames = frames' at hframes
  cases hframes with
  | head returned yielded =>
    exact { hst with
      frames := .head returned (List.forall_mem_append.2 ⟨yielded, List.forall_mem_singleton.2 ht⟩) }

end Check.Parallel

/-- What lies inside is checked alike wherever the runs stand, if it may be met. -/
structure Check.Inside (c : Context) (P : Pairing) (inner other : Inner) : Prop where
  hints : ∀ span found, c.hints.get? span = some found → found.1.Closed
  expr : ∀ {e : Expr} {spine : List Nat}, P.AdmitsExpr e →
    Parallel c P spine (inner.expr e) (other.expr e) Ty.Closed
  block : ∀ {b : List Stmt} {spine : List Nat}, (∀ n ∈ bodyNodes b, P.Admits n) →
    Parallel c P spine (inner.block b) (other.block b) fun _ => True

namespace Check.Inside

open Parallel

variable {c : Context} {P : Pairing} {spine : List Nat} {inner other : Inner} (F : Inside c P inner other)
include F

theorem rebindContainer {e : Expr} (he : P.AdmitsExpr e) (hown : ∀ x ∈ e.asName?.toList, P.own x) {grown : Ty}
    (hgrown : grown.Closed) :
    Parallel c P spine (Check.rebindContainer inner e grown) (Check.rebindContainer other e grown)
      fun _ => True := by
  unfold Check.rebindContainer
  cases hform : e.form with
  | name name =>
    have hname : P.own name := hown name (Option.mem_toList.2 (Expr.asName?_eq_some.2 hform))
    exact modifyScopes fun _ _ hst => hst.update hname hgrown
  | member value attr =>
    have hvalue : P.AdmitsExpr value := he.child (by simp [hform, ExprForm.children])
    refine (F.expr hvalue).bind fun owner howner => modifyArena ?_ ?_
    · exact Arena.replaceAttribute_of_closed howner _ attr grown
    · exact Arena.replaceAttribute_of_closed howner _ attr grown
  | _ => exact .pure trivial

theorem storeItem {container index : Expr} (hc : P.AdmitsExpr container) (hi : P.AdmitsExpr index)
    (hown : ∀ x ∈ container.asName?.toList, P.own x) {value : Ty} (hvalue : value.Closed) :
    Parallel c P spine (Check.storeItem inner container index value)
      (Check.storeItem other container index value) fun _ => True := by
  refine (F.expr hc).bind fun holder hholder => (F.expr hi).bind fun place hplace => ?_
  cases holder with
  | container model =>
    simp only
    split
    · rename_i grown hgrown
      split
      · exact F.rebindContainer hc hown (stable.withItem? hholder hplace hvalue hgrown)
      · exact .pure trivial
    · exact .pure trivial
  | object id =>
    cases hholder
    contradiction
  | _ => exact .pure trivial

theorem assign {target : Expr} (ht : P.AdmitsExpr target) (hown : ∀ x ∈ target.boundNames, P.own x) {value : Ty}
    (hvalue : value.Closed) (confidence : Float) (mode : BindMode) :
    Parallel c P spine (Check.assign inner target value confidence mode)
      (Check.assign other target value confidence mode) fun _ => True := by
  -- By induction on the size of the target.
  induction target using WellFounded.induction (measure (sizeOf : Expr → Nat)).wf generalizing value with
  | _ target ih =>
    -- The targets in a tuple or a list, without their stars.
    have parts {targets : List Expr} (h : ∀ k ∈ targets, k ∈ target.form.children)
        (hnames : ∀ k ∈ targets, k.boundNames ⊆ target.boundNames) :
        Parallel c P spine
          ((distribute targets value).attach.forM fun item =>
            Check.assign inner item.1.1 item.1.2 confidence mode)
          ((distribute targets value).attach.forM fun item =>
            Check.assign other item.1.1 item.1.2 confidence mode) fun _ => True := by
      refine .forM fun item _ => ?_
      obtain ⟨k, hm, hi⟩ := mem_distribute item.2
      have hlt : sizeOf k < sizeOf target := Expr.sizeOf_lt_of_mem_children (h k hm)
      have hk : P.AdmitsExpr k := ht.child (h k hm)
      have hkown : ∀ x ∈ k.boundNames, P.own x := fun x hx => hown x (hnames k hm hx)
      have hitem := stable.distribute hvalue item.2
      rcases hi with hi | hi
      · rw [hi]
        exact ih k hlt hk hkown hitem
      · rw [hi]
        refine ih _ (Nat.lt_of_le_of_lt k.sizeOf_unstarred_le hlt) hk.unstarred ?_ hitem
        rw [k.boundNames_unstarred]
        exact hkown
    rw [assign.eq_def inner, assign.eq_def other]
    rcases target with ⟨node, form, span⟩
    rw [Expr.boundNames.eq_def] at hown
    cases form with
    | name name =>
      have hname : P.own name := hown name List.mem_cons_self
      cases mode with
      | checked => exact bindName hname hvalue confidence
      | fresh => exact setName hname hvalue confidence
    | member owner attr =>
      refine (F.expr (ht.child (by simp [ExprForm.children]))).bind fun holder hholder => getArena_bind ?_
      have hleft := Arena.setAttribute_of_closed hholder P.left.arena attr value
      have hright := Arena.setAttribute_of_closed hholder P.right.arena attr value
      refine (modifyArena hleft hright).bind fun _ _ => ?_
      cases hsealed : Arena.isSealed holder with
      | false =>
        rw [Arena.setAttribute_ok _ hsealed, Arena.setAttribute_ok _ hsealed]
        exact .pure trivial
      | true =>
        rw [Arena.setAttribute_of_isSealed hsealed, Arena.setAttribute_of_isSealed hsealed]
        exact .fault _ _
    | subscript container index =>
      exact F.storeItem (ht.child (by simp [ExprForm.children])) (ht.child (by simp [ExprForm.children])) hown hvalue
    | tuple targets | list targets =>
      refine parts (fun k hk => hk) fun k hk x hx => ?_
      rw [Expr.boundNames.eq_def]
      exact List.mem_flatMap.2 ⟨⟨k, hk⟩, List.mem_attach _ _, hx⟩
    | starred starred =>
      have h : starred ∈ (ExprForm.starred starred).children := by simp [ExprForm.children]
      exact ih starred (Expr.sizeOf_lt_of_mem_children h) (ht.child h) hown
        (stable.listOf (Ty.Stable.known (stable.elementType hvalue)))
    | _ => exact .fault _ _

theorem arguments {args : List Expr} {keywords : List (Keyword Expr)} (ha : ∀ e ∈ args, P.AdmitsExpr e)
    (hk : ∀ k ∈ keywords, P.AdmitsExpr k.value) :
    Parallel c P spine (Check.arguments inner args keywords) (Check.arguments other args keywords)
      fun result => ∀ t ∈ result.positional, t.Closed := by
  refine Parallel.bind (.foldlM (R := fun result : CallArgs => ∀ t ∈ result.positional, t.Closed) nofun
    fun arg harg result hresult => ?_) fun spread hspread => .foldlM hspread fun keyword hkeyword result hresult => ?_
  · cases hs : arg.starred? with
    | none =>
      refine (F.expr (ha arg harg)).bind fun t ht => .pure ?_
      exact List.forall_mem_append.2 ⟨hresult, List.forall_mem_singleton.2 ht⟩
    | some spread =>
      refine (F.expr ((ha arg harg).starred hs)).bind fun t ht => ?_
      cases t with
      | container model =>
        simp only
        split
        · exact .pure (List.forall_mem_append.2 ⟨hresult, ht.elts⟩)
        · exact .pure hresult
      | _ => exact .pure hresult
  · refine (F.expr (hk keyword hkeyword)).bind fun value hvalue => ?_
    cases keyword.arg <;> exact .pure hresult

theorem checkSubclassTest {args : List Expr} (ha : ∀ e ∈ args, P.AdmitsExpr e) :
    Parallel c P spine (Check.checkSubclassTest inner args) (Check.checkSubclassTest other args) Ty.Closed := by
  refine Parallel.andPure (.forIn fun arg harg => ?_) (Ty.Sound.prim _)
  refine (F.expr (ha arg harg)).bind fun t _ => (confidenceOf arg).bind fun confidence _ => ?_
  refine Parallel.andPure (.forIn fun candidate _ => ?_) trivial
  exact (Parallel.reportNonClasses arg candidate confidence).andPure trivial

theorem checkPlainCall {func : Expr} {args : List Expr} {keywords : List (Keyword Expr)} (hf : P.AdmitsExpr func)
    (ha : ∀ e ∈ args, P.AdmitsExpr e) (hk : ∀ k ∈ keywords, P.AdmitsExpr k.value)
    (hown : ∀ x ∈ (ExprForm.call func args keywords).changes, P.own x) :
    Parallel c P spine (Check.checkPlainCall inner func args keywords)
      (Check.checkPlainCall other func args keywords) Ty.Closed := by
  have plain : Parallel c P spine
      (do
        let callee ← inner.expr func
        Check.callType inner callee (← Check.arguments inner args keywords))
      (do
        let callee ← other.expr func
        Check.callType other callee (← Check.arguments other args keywords)) Ty.Closed :=
    (F.expr hf).bind fun callee hcallee => (F.arguments ha hk).bind fun callArgs hargs =>
      Parallel.callType inner other hcallee hargs
  unfold Check.checkPlainCall
  cases hform : func.form with
  | member value attr =>
    have hown : ∀ x ∈ value.asName?.toList, P.own x := by simpa [ExprForm.changes, hform] using hown
    have hvalue : P.AdmitsExpr value := hf.child (by simp [hform, ExprForm.children])
    refine (F.expr hvalue).bind fun receiver hreceiver => ?_
    refine (confidenceOf value).bind fun confidence _ => ?_
    refine (readAttribute hreceiver attr confidence).bind fun callee hcallee => ?_
    refine (F.arguments ha hk).bind fun callArgs hargs => ?_
    refine (Parallel.callType inner other hcallee hargs).bind fun result hresult => ?_
    split
    · rename_i grown hgrown
      exact (F.rebindContainer hvalue hown (stable.grown? hreceiver hargs hgrown)).andPure hresult
    · exact .pure hresult
  | _ => exact plain

theorem checkCall {func : Expr} {args : List Expr} {keywords : List (Keyword Expr)} (hf : P.AdmitsExpr func)
    (ha : ∀ e ∈ args, P.AdmitsExpr e) (hk : ∀ k ∈ keywords, P.AdmitsExpr k.value)
    (hown : ∀ x ∈ (ExprForm.call func args keywords).changes, P.own x) :
    Parallel c P spine (Check.checkCall inner func args keywords) (Check.checkCall other func args keywords)
      Ty.Closed := by
  have plain : Parallel c P spine (Check.checkPlainCall inner func args keywords)
      (Check.checkPlainCall other func args keywords) Ty.Closed :=
    F.checkPlainCall hf ha hk hown
  refine (Parallel.namesBuiltin hf _).bind fun isTest _ => (Parallel.namesBuiltin hf _).bind fun asksName _ => ?_
  split
  · exact (F.arguments ha hk).andPure (Ty.Sound.prim _)
  refine (Parallel.namesBuiltin hf _).bind fun isSubclassTest _ => ?_
  split
  · exact F.checkSubclassTest ha
  refine (Parallel.namesBuiltin hf _).bind fun isType _ => ?_
  split
  · rcases args with _ | ⟨arg, _ | ⟨_, _⟩⟩
    · exact plain
    · refine (F.expr (ha arg List.mem_cons_self)).bind fun t ht => ?_
      cases t with
      | object id =>
        cases ht
        contradiction
      | _ => exact .pure .any
    · exact plain
  · exact plain

theorem checkDisplay (kind : ContainerKind) {elts : List Expr} (h : ∀ e ∈ elts, P.AdmitsExpr e) :
    Parallel c P spine (Check.checkDisplay inner kind elts) (Check.checkDisplay other kind elts) Ty.Closed := by
  refine Parallel.bind (.foldlM (R := fun model => (Ty.container model).Closed)
    (stable.empty kind) fun elt helt model hmodel => ?_) fun model hmodel => .pure hmodel
  cases hs : elt.starred? with
  | none =>
    refine (F.expr (h elt helt)).bind fun t ht => .pure ?_
    split
    · exact stable.push hmodel ht
    · exact stable.pushKnown hmodel ht
  | some spread =>
    exact (F.expr ((h elt helt).starred hs)).bind fun t ht => .pure (stable.pushKnown hmodel (stable.elementType ht))

theorem checkDict {items : List (Option Expr × Expr)} (hk : ∀ i ∈ items, ∀ e ∈ i.1, P.AdmitsExpr e)
    (hv : ∀ i ∈ items, P.AdmitsExpr i.2) :
    Parallel c P spine (Check.checkDict inner items) (Check.checkDict other items) Ty.Closed := by
  refine Parallel.bind (.foldlM (R := fun model => (Ty.container model).Closed)
    (stable.empty .dict) fun item hi model hmodel => ?_) fun model hmodel => .pure hmodel
  cases hitem : item.1 with
  | some key =>
    exact (F.expr (hk item hi key hitem)).bind fun k hk => (F.expr (hv item hi)).bind fun value hvalue =>
      .pure (stable.pushPair hmodel hk hvalue)
  | none =>
    refine (F.expr (hv item hi)).bind fun spread hspread => ?_
    cases spread with
    | container spread =>
      refine .pure ?_
      split
      · exact stable.extendedFrom hmodel hspread fun _ _ => .container hmodel.elts hmodel.values
      · exact hmodel
    | _ => exact .pure hmodel

omit F in
theorem binaryResult (op : BinaryOp) {left right : Ty} (hleft : left.Closed) (hright : right.Closed)
    (confidence : Float) :
    Parallel c P spine (Check.binaryResult inner op left right confidence)
      (Check.binaryResult other op left right confidence) Ty.Closed := by
  refine (Parallel.callSpecialOf inner other hleft _ _ _).bind fun result hresult => ?_
  subst hresult
  refine (Parallel.callSpecialOf inner other hright _ _ _).bind fun result hresult => ?_
  subst hresult
  exact Parallel.plainResult op hleft hright confidence

theorem checkUnary (op : UnaryOp) {operand : Expr} (h : P.AdmitsExpr operand) :
    Parallel c P spine (Check.checkUnary inner op operand) (Check.checkUnary other op operand) Ty.Closed := by
  refine (F.expr h).bind fun t ht => ?_
  have hplain := stable.applyUnary op ht
  cases unaryMethod? op with
  | some method =>
    refine (Parallel.callSpecialOf inner other ht method _ _).bind fun result hresult => ?_
    subst hresult
    exact .pure hplain
  | none => exact .pure hplain

theorem checkCompare {left : Expr} {rest : List (CompareOp × Expr)} (hl : P.AdmitsExpr left)
    (hr : ∀ step ∈ rest, P.AdmitsExpr step.2) :
    Parallel c P spine (Check.checkCompare inner left rest) (Check.checkCompare other left rest) Ty.Closed := by
  refine (F.expr hl).bind fun first hfirst => ?_
  refine Parallel.andPure (.foldlM hfirst fun step hstep previous hprevious => ?_) (Ty.Sound.prim _)
  refine (F.expr (hr step hstep)).bind fun right hright => ?_
  split
  · exact (Parallel.callSpecialOf inner other hright _ _ _).andPure hright
  · exact .pure hright

theorem checkSubscript {value index : Expr} (hv : P.AdmitsExpr value) (hi : P.AdmitsExpr index) :
    Parallel c P spine (Check.checkSubscript inner value index) (Check.checkSubscript other value index)
      Ty.Closed := by
  refine (F.expr hv).bind fun container hcontainer => (F.expr hi).bind fun indexType _ => ?_
  split
  · exact .pure (stable.sliced hcontainer)
  · exact Parallel.itemType inner other hcontainer index indexType

theorem narrowTo {subject classes : Expr} (hs : P.AdmitsExpr subject) (hc : P.AdmitsExpr classes) :
    Parallel c P spine (Check.narrowTo inner subject classes) (Check.narrowTo other subject classes)
      fun _ => True := by
  unfold Check.narrowTo
  split
  · rename_i name hname
    have hread := hs.name (Expr.asName?_eq_some.1 hname)
    refine (F.expr hc).bind fun t ht => (Parallel.instanceType? ht).bind fun narrowed hnarrowed => ?_
    cases narrowed with
    | none => exact .pure trivial
    | some narrowed =>
      have hnarrowed := hnarrowed narrowed rfl
      refine getArena_bind (getScopes_bind fun s s' hst => ?_)
      obtain ⟨hfind, hclosed⟩ := hst.find hread
      rw [← hfind]
      have hsame : ∀ item ∈ (s.find name).alternatives,
          P.right.arena.isSubtype item.1 narrowed = P.left.arena.isSubtype item.1 narrowed := fun item hitem =>
        Arena.isSubtype_eq_of_closed (stable.alternatives hclosed hitem) hnarrowed P.left.arena P.right.arena
      rw [List.filter_congr fun item hitem => congrArg (!item.1.isUnknown && ·) (hsame item hitem)]
      refine modifyScopes fun _ _ hst => hst.narrow ?_ name
      split
      · exact hnarrowed
      · refine stable.oneOf_weighted fun item hitem => ?_
        exact stable.alternatives hclosed (List.mem_filter.1 hitem).1
  · exact .pure trivial

theorem checkCondition {e : Expr} (he : P.AdmitsExpr e) :
    Parallel c P spine (Check.checkCondition inner e) (Check.checkCondition other e) fun _ => True := by
  -- By induction on the size of the condition.
  induction e using WellFounded.induction (measure (sizeOf : Expr → Nat)).wf with
  | _ e ih =>
    have plain : Parallel c P spine (inner.expr e >>= fun _ => pure ()) (other.expr e >>= fun _ => pure ())
        fun _ => True := (F.expr he).andPure trivial
    rw [checkCondition.eq_def inner, checkCondition.eq_def other]
    rcases e with ⟨node, form, span⟩
    cases form with
    | boolOp op values =>
      cases op with
      | and =>
        refine .forM fun value _ => ?_
        exact ih value.1 (Expr.sizeOf_lt_of_mem_children value.2) (he.child value.2)
      | or => exact plain
    | call func args keywords =>
      rcases args with _ | ⟨subject, _ | ⟨classes, _ | ⟨_, _⟩⟩⟩
      · exact plain
      · exact plain
      · refine (Parallel.namesBuiltin (he.child (by simp [ExprForm.children])) _).bind fun isTest _ => ?_
        refine (F.expr he).bind fun _ _ => ?_
        split
        · exact F.narrowTo (he.child (by simp [ExprForm.children])) (he.child (by simp [ExprForm.children]))
        · exact .pure trivial
      · exact plain
    | _ => exact plain

theorem inClauses {α : Type} {Q : α → Prop} {clauses : List (Clause Expr)} {x y : CheckM α}
    (h : ∀ e ∈ clauses.flatMap Clause.parts, P.AdmitsExpr e)
    (hown : ∀ x ∈ clauses.flatMap (·.target.boundNames), P.own x) (hx : ∀ spine, Parallel c P spine x y Q) :
    Parallel c P spine (Check.inClauses inner clauses x) (Check.inClauses other clauses y) Q := by
  refine inScope fun d => Parallel.bind (.forIn fun clause hclause => ?_) fun _ _ => hx (d :: spine)
  have part {e : Expr} (he : e ∈ clause.parts) : P.AdmitsExpr e := h e (List.mem_flatMap.2 ⟨clause, hclause, he⟩)
  refine (F.expr (part (by simp [Clause.parts]))).bind fun iterable hiterable => ?_
  refine (Parallel.iterationType inner other hiterable).bind fun element helement => ?_
  refine (F.assign (part (by simp [Clause.parts])) (fun x hx => ?_) helement _ _).bind fun _ _ => ?_
  · exact hown x (List.mem_flatMap.2 ⟨clause, hclause, hx⟩)
  refine Parallel.andPure (.forEach fun condition hcondition => ?_) trivial
  exact F.checkCondition (part (by simp [Clause.parts, hcondition]))

theorem checkComprehension (kind : ContainerKind) {elt : Expr} {clauses : List (Clause Expr)} (he : P.AdmitsExpr elt)
    (h : ∀ e ∈ clauses.flatMap Clause.parts, P.AdmitsExpr e)
    (hown : ∀ x ∈ clauses.flatMap (·.target.boundNames), P.own x) :
    Parallel c P spine (Check.checkComprehension inner kind elt clauses)
      (Check.checkComprehension other kind elt clauses) Ty.Closed := by
  refine (F.inClauses h hown fun _ => F.expr he).bind fun t ht => ?_
  exact .pure (stable.pushKnown (stable.empty kind) ht)

theorem checkDictComprehension {key value : Expr} {clauses : List (Clause Expr)} (hk : P.AdmitsExpr key)
    (hv : P.AdmitsExpr value) (h : ∀ e ∈ clauses.flatMap Clause.parts, P.AdmitsExpr e)
    (hown : ∀ x ∈ clauses.flatMap (·.target.boundNames), P.own x) :
    Parallel c P spine (Check.checkDictComprehension inner key value clauses)
      (Check.checkDictComprehension other key value clauses) Ty.Closed := by
  refine Parallel.bind (F.inClauses (Q := fun pair : Ty × Ty => pair.1.Closed ∧ pair.2.Closed) h hown
    fun _ => ?_) fun pair h => .pure (stable.pushPair (stable.empty .dict) h.1 h.2)
  exact (F.expr hk).bind fun k hk => (F.expr hv).bind fun v hv => .pure ⟨hk, hv⟩

theorem evaluate {e : Expr} (he : P.AdmitsExpr e) :
    Parallel c P spine (Check.evaluate inner e) (Check.evaluate other e) Ty.Closed := by
  obtain ⟨hplain, hown, -⟩ := he.self
  unfold Check.evaluate
  rcases e with ⟨node, form, span⟩
  cases form with
  | lambda params body => cases hplain
  | name name =>
    refine getScopes_bind fun s t hst => ?_
    obtain ⟨hsame, hclosed⟩ := hst.lookup (he.name rfl)
    cases hs : s.lookup name with
    | none =>
      have ht : t.lookup name = none := by simpa [hs] using hsame
      rw [ht]
      exact .pure .any
    | some b =>
      obtain ⟨b', ht, htype⟩ : ∃ b', t.lookup name = some b' ∧ b'.type = b.type := by
        simpa [hs, eq_comm] using hsame
      rw [ht]
      simp only [htype]
      refine .pure ?_
      split
      · exact .any
      · exact hclosed b hs
  | number value => cases value <;> exact .pure (.prim _)
  | list elts | tuple elts | set elts => exact F.checkDisplay _ fun e he' => he.child he'
  | dict items =>
    refine F.checkDict (fun i hi k hk => he.child ?_) fun i hi => he.child ?_
    · exact List.mem_flatMap.2 ⟨i, hi, List.mem_append_left _ (Option.mem_toList.2 hk)⟩
    · exact List.mem_flatMap.2 ⟨i, hi, List.mem_append_right _ (List.mem_singleton_self i.2)⟩
  | listComp elt clauses | generator elt clauses | setComp elt clauses =>
    exact F.checkComprehension _ (he.child List.mem_cons_self) (fun k hk => he.child (List.mem_cons_of_mem _ hk)) hown
  | dictComp key value clauses =>
    refine F.checkDictComprehension (he.child ?_) (he.child ?_) (fun k hk => he.child ?_) hown
    · exact List.mem_cons_self
    · exact List.mem_cons_of_mem _ List.mem_cons_self
    · exact List.mem_cons_of_mem _ (List.mem_cons_of_mem _ hk)
  | ifExp test body orelse =>
    refine (F.checkCondition (he.child (by simp [ExprForm.children]))).bind fun _ _ => ?_
    refine (F.expr (he.child (by simp [ExprForm.children]))).bind fun left hleft => ?_
    refine (F.expr (he.child (by simp [ExprForm.children]))).bind fun right hright => .pure ?_
    exact Ty.sound_oneOf_pair hleft hright
  | boolOp op values =>
    exact Parallel.bind (.mapM fun value hvalue => F.expr (he.child hvalue)) fun ts hts => .pure (stable.oneOf _ hts)
  | binOp left op right =>
    refine (F.expr (he.child (by simp [ExprForm.children]))).bind fun l hl => ?_
    refine (F.expr (he.child (by simp [ExprForm.children]))).bind fun r hr => ?_
    refine (confidenceOf left).bind fun p _ => (confidenceOf right).bind fun q _ => ?_
    exact binaryResult op hl hr _
  | unaryOp op operand => exact F.checkUnary op (he.child (by simp [ExprForm.children]))
  | compare left rest =>
    refine F.checkCompare (he.child List.mem_cons_self) fun step hstep => he.child ?_
    exact List.mem_cons_of_mem _ (List.mem_map.2 ⟨step, hstep, rfl⟩)
  | call func args keywords =>
    refine F.checkCall (he.child (by simp [ExprForm.children])) (fun k hk => he.child ?_) (fun k hk => he.child ?_) hown
    · exact List.mem_append_left _ (List.mem_cons_of_mem _ hk)
    · exact List.mem_append_right _ (List.mem_map.2 ⟨k, hk, rfl⟩)
  | member value attr =>
    refine (F.expr (he.child (by simp [ExprForm.children]))).bind fun owner howner => ?_
    exact (confidenceOf value).bind fun confidence _ => readAttribute howner attr confidence
  | subscript value index =>
    exact F.checkSubscript (he.child (by simp [ExprForm.children])) (he.child (by simp [ExprForm.children]))
  | slice lower upper step =>
    exact Parallel.andPure (.forIn fun part hpart => (F.expr (he.child hpart)).andPure trivial) Ty.Sound.any
  | starred value | await value => exact F.expr (he.child (by simp [ExprForm.children]))
  | yield value =>
    cases value with
    | none => exact (Parallel.recordYield (.prim _)).andPure Ty.Sound.any
    | some value =>
      exact (F.expr (he.child (by simp [ExprForm.children]))).bind fun t ht =>
        (Parallel.recordYield ht).andPure Ty.Sound.any
  | yieldFrom value =>
    refine (F.expr (he.child (by simp [ExprForm.children]))).bind fun t ht => ?_
    refine (Parallel.iterationType inner other ht).bind fun element helement => ?_
    exact (Parallel.recordYield helement).andPure Ty.Sound.any
  | named target value =>
    refine (F.expr (he.child (by simp [ExprForm.children]))).bind fun t ht => ?_
    refine (confidenceOf value).bind fun confidence _ => ?_
    exact (F.assign (he.child (by simp [ExprForm.children])) hown ht confidence _).andPure ht
  | str | bytes | formatStr | bool | noneLiteral => exact .pure (.prim _)
  | ellipsis => exact .pure .any

/-- What is remembered is remembered in both runs, or in none. -/
theorem exprOver {e : Expr} (he : P.AdmitsExpr e) :
    Parallel c P spine (Check.exprOver inner e) (Check.exprOver other e) Ty.Closed := by
  refine stamp_bind fun before before' hbefore => ?_
  refine Parallel.bind (.modifyGet (Q := fun remembered => ∀ t ∈ remembered, t.Closed) fun s t hst => ?_)
    fun remembered hremembered => ?_
  · obtain ⟨hsame, hclosed⟩ := (hst.memo (e.span.start.file, e.id)).get hbefore
    refine ⟨hsame, hclosed, { hst with memo := fun key => ?_ }⟩
    rw [Memo.entries_get, Memo.entries_get]
    exact hst.memo key
  cases remembered with
  | some t => exact .pure (hremembered t rfl)
  | none =>
    have keep {t : Ty} (ht : t.Closed) :
        Parallel c P spine
          (do
            let after ← CheckM.stamp
            modify fun s => { s with memo := s.memo.store e.span.start.file e.id t after }
            return t)
          (do
            let after ← CheckM.stamp
            modify fun s => { s with memo := s.memo.store e.span.start.file e.id t after }
            return t)
          Ty.Closed := by
      refine stamp_bind fun after after' hafter => (Parallel.modify fun s t hst => ?_).andPure ht
      refine { hst with memo := fun key => ?_ }
      simp only [Memo.store, Memo.getElem?_insert]
      split
      · exact .found ht hafter
      · exact hst.memo key
    refine (F.evaluate he).bind fun inferred hinferred => (Parallel.hint? e).bind fun hint hhint => ?_
    cases hint with
    | none => exact keep hinferred
    | some found =>
      cases hunknown : found.1.isUnknown with
      | true =>
        simp only [hunknown, if_true]
        exact keep hinferred
      | false =>
        simp only [hunknown, Bool.false_eq_true, if_false]
        exact keep (F.hints _ found (hhint found rfl))

end Check.Inside

end Credence

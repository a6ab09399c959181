import Credence.Arena.Operation
import Credence.Builtin.Call

namespace Credence

/-- A property that types share with their parts and with what is made of them. -/
structure Ty.Stable (P : Ty → Prop) : Prop where
  any : P .any
  prim : ∀ p, P (.prim p)
  elts : ∀ {c : Container Ty}, P (.container c) → ∀ t ∈ c.elts, P t
  values : ∀ {c : Container Ty}, P (.container c) → ∀ t ∈ c.values, P t
  ofUnion : ∀ {u : Union Ty}, P (.union u) → ∀ t ∈ u.elts, P t
  oneOf : ∀ {ts : List Ty} (weights? : Option (List Float)), (∀ t ∈ ts, P t) → P (.oneOf ts weights?)
  empty : ∀ kind, P (.container { kind })
  pushWith : ∀ {c : Container Ty} {elt : Ty} {value? : Option Ty} (prob : Float), P (.container c) →
    P elt → (∀ t ∈ value?, P t) → P (.container (c.pushWith elt value? prob))
  builtin : ∀ {b : Builtin Ty}, (∀ t ∈ b.params, P t) → P b.ret → P (.builtin b)

def Ty.CallableIn (P : Ty → Prop) (t : Ty) : Prop :=
  ∃ b : Builtin Ty, t = .builtin b ∧ (∀ s ∈ b.params, P s) ∧ P b.ret

namespace Ty.Stable

variable {P : Ty → Prop} (h : Stable P) {c d : Container Ty} {s t : Ty}
include h

theorem alternatives (hs : P s) {item : Ty × Float} (hitem : item ∈ s.alternatives) : P item.1 := by
  cases s with
  | union u => exact h.ofUnion hs _ (List.of_mem_zip hitem).1
  | _ => exact (List.mem_singleton.1 hitem).symm ▸ hs

theorem oneOf_map {u : Union Ty} {f : {t // t ∈ u.elts} → Ty} (weights? : Option (List Float))
    (hf : ∀ t, P (f t)) : P (.oneOf (u.elts.attach.map f) weights?) := by
  apply h.oneOf
  intro s hs
  obtain ⟨t, -, rfl⟩ := List.mem_map.1 hs
  exact hf t

theorem oneOf_weighted {items : List (Ty × Float)} (hitems : ∀ item ∈ items, P item.1) :
    P (.oneOf (items.map (·.1)) (some (items.map (·.2)))) := by
  apply h.oneOf
  intro t ht
  obtain ⟨item, hitem, rfl⟩ := List.mem_map.1 ht
  exact hitems item hitem

theorem push (hc : P (.container c)) (ht : P t) : P (.container (c.push t)) :=
  h.pushWith 1.0 hc ht fun _ hv => absurd hv (Option.not_mem_none _)

theorem pushValue (hc : P (.container c)) (hs : P s) (ht : P t) :
    P (.container (c.push s (some t))) :=
  h.pushWith 1.0 hc hs fun _ hv => Option.mem_some.1 hv ▸ ht

omit h in
theorem foldl {α : Type} {f : Container Ty → α → Container Ty} {items : List α}
    (hc : P (.container c))
    (hf : ∀ c, P (.container c) → ∀ item ∈ items, P (.container (f c item))) :
    P (.container (items.foldl f c)) :=
  List.foldlRecOn items f (motive := fun c => P (.container c)) hc hf

theorem pushKnown (hc : P (.container c)) (ht : P t) : P (.container (c.pushKnown t)) := by
  unfold Container.pushKnown
  split
  · exact hc
  · exact h.push hc ht

theorem pushPair (hc : P (.container c)) (hs : P s) (ht : P t) : P (.container (c.pushPair s t)) := by
  unfold Container.pushPair
  split
  · exact hc
  · exact h.pushValue hc hs ht

theorem foldl_pushKnown {ts : List Ty} (hc : P (.container c)) (hts : ∀ t ∈ ts, P t) :
    P (.container (ts.foldl Container.pushKnown c)) :=
  foldl hc fun _ hc t ht => h.pushKnown hc (hts t ht)

theorem ofElts (kind : ContainerKind) {ts : List Ty} (hts : ∀ t ∈ ts, P t) :
    P (.container (.ofElts kind ts)) :=
  foldl (h.empty kind) fun _ hc t ht => h.push hc (hts t ht)

theorem listOf {ts : List Ty} (hts : ∀ t ∈ ts, P t) : P (.listOf ts) :=
  h.ofElts .list hts

theorem setOf {ts : List Ty} (hts : ∀ t ∈ ts, P t) : P (.setOf ts) :=
  h.ofElts .set hts

theorem tupleOf {ts : List Ty} (hts : ∀ t ∈ ts, P t) : P (.tupleOf ts) :=
  h.ofElts .tuple hts

theorem foldl_pairs {pairs : List (Ty × Ty)} (hc : P (.container c))
    (hpairs : ∀ p ∈ pairs, P p.1 ∧ P p.2) :
    P (.container (pairs.foldl (fun c item => c.push item.1 (some item.2)) c)) := by
  refine foldl hc fun d hd p hp => ?_
  exact h.pushValue hd (hpairs p hp).1 (hpairs p hp).2

theorem dictOf {ks vs : List Ty} (hks : ∀ t ∈ ks, P t) (hvs : ∀ t ∈ vs, P t) : P (.dictOf ks vs) := by
  apply h.foldl_pairs (h.empty .dict)
  intro p hp
  have hp := List.of_mem_zip hp
  exact ⟨hks _ hp.1, hvs _ hp.2⟩

theorem extendedFrom (hc : P (.container c)) (hd : P (.container d))
    (hlist : c.kind = .tuple → d.kind ≠ .tuple → P (.container { c with kind := .list })) :
    P (.container (c.extended d)) := by
  unfold Container.extended
  split
  · split
    · apply h.foldl_pairs hc
      intro p hp
      have hp := List.of_mem_zip hp
      exact ⟨h.elts hd _ hp.1, h.values hd _ hp.2⟩
    · exact hc
  · refine foldl ?_ fun _ hc t ht => h.push hc (h.elts hd t ht)
    split
    · rename_i hkinds
      simp only [Bool.and_eq_true, beq_iff_eq, bne_iff_ne] at hkinds
      exact hlist hkinds.1 hkinds.2
    · exact hc

theorem extended (hc : P (.container c)) (hd : P (.container d)) (hkind : c.kind = d.kind) :
    P (.container (c.extended d)) := by
  refine h.extendedFrom hc hd fun htuple hother => ?_
  exact absurd (hkind ▸ htuple) hother

theorem containerElementType (hc : P (.container c)) : P c.elementType :=
  h.oneOf _ (h.elts hc)

theorem valueType (hc : P (.container c)) : P c.valueType := by
  unfold Container.valueType
  split
  · exact h.oneOf _ (h.values hc)
  · exact h.any

theorem elementType (ht : P t) : P t.elementType := by
  induction t using Ty.elementType.induct with
  | case1 c => rw [Ty.elementType]; exact h.containerElementType ht
  | case2 => rw [Ty.elementType]; exact h.prim _
  | case3 => rw [Ty.elementType]; exact h.prim _
  | case4 u ih =>
    rw [Ty.elementType]
    exact h.oneOf_map _ fun t => ih t.1 t.2 (h.ofUnion ht t.1 t.2)
  | case5 t =>
    rw [Ty.elementType]
    · exact h.any
    all_goals assumption

theorem firstElement {args : List Ty} (hargs : ∀ t ∈ args, P t) : P (Builtin.firstElement args) := by
  cases args with
  | nil => exact h.any
  | cons t rest => exact h.elementType (hargs t List.mem_cons_self)

omit h in
theorem knownElements (ht : P t) : ∀ s ∈ Builtin.knownElements t, P s := by
  intro s hs
  unfold Builtin.knownElements at hs
  split at hs
  · exact absurd hs List.not_mem_nil
  · exact List.mem_singleton.1 hs ▸ ht

theorem prims (ps : List Prim) : ∀ t ∈ ps.map Ty.prim, P t := by
  intro t ht
  obtain ⟨p, -, rfl⟩ := List.mem_map.1 ht
  exact h.prim p

theorem refine? {name : String} {args : List Ty} (hargs : ∀ t ∈ args, P t)
    (ht : Builtin.refine? name args = some t) : P t := by
  have hfirst := h.firstElement hargs
  have hknown := knownElements hfirst
  unfold Builtin.refine? at ht
  split at ht
  -- Collections of what the first argument yields.
  iterate 3 exact Option.some.inj ht ▸ h.listOf hknown
  iterate 2 exact Option.some.inj ht ▸ h.setOf hknown
  · split at ht
    · exact Option.some.inj ht ▸ h.tupleOf (h.elts (hargs _ List.mem_cons_self))
    · have helement := h.elementType (hargs _ List.mem_cons_self)
      exact Option.some.inj ht ▸ h.tupleOf (knownElements helement)
    · exact Option.some.inj ht ▸ h.tupleOf (h.prims [])
  -- Lists of numbers and of tuples.
  · exact Option.some.inj ht ▸ h.listOf (h.prims [.int])
  · have hitem : P (.tupleOf [.int, Builtin.firstElement args]) :=
      h.tupleOf (List.forall_mem_cons.2 ⟨h.prim .int, List.forall_mem_singleton.2 hfirst⟩)
    exact Option.some.inj ht ▸ h.listOf (List.forall_mem_singleton.2 hitem)
  · have hitem : P (.tupleOf (args.map Ty.elementType)) := by
      apply h.tupleOf
      intro s hs
      obtain ⟨arg, harg, rfl⟩ := List.mem_map.1 hs
      exact h.elementType (hargs arg harg)
    exact Option.some.inj ht ▸ h.listOf (List.forall_mem_singleton.2 hitem)
  · split at ht
    · split at ht
      · exact Option.some.inj ht ▸ hargs _ List.mem_cons_self
      · cases ht
    · cases ht
  -- Numbers.
  · repeat' split at ht
    all_goals cases ht
    all_goals first | exact h.prim _ | exact h.any
  -- One of the arguments or of what they yield.
  iterate 2
    split at ht
    · cases ht
    · exact Option.some.inj ht ▸ h.elementType (hargs _ List.mem_cons_self)
    · exact Option.some.inj ht ▸ h.oneOf _ hargs
  · repeat' split at ht
    all_goals cases ht
    all_goals first | exact h.prim _ | exact h.any
  · cases args with
    | nil => exact Option.some.inj ht ▸ h.any
    | cons t rest => exact Option.some.inj ht ▸ hargs _ List.mem_cons_self
  · exact Option.some.inj ht ▸ hfirst
  · cases ht

theorem shape (shape : Shape) : P shape.type := by
  cases shape with
  | any => exact h.any
  | list => exact h.listOf (h.prims [])
  | dict => exact h.dictOf (h.prims []) (h.prims [])
  | set => exact h.setOf (h.prims [])
  | tuple => exact h.tupleOf (h.prims [])
  | strList => exact h.listOf (h.prims [.str])
  | bytesList => exact h.listOf (h.prims [.bytes])
  | strTriple => exact h.tupleOf (h.prims [.str, .str, .str])
  | bytesTriple => exact h.tupleOf (h.prims [.bytes, .bytes, .bytes])
  | intPair => exact h.tupleOf (h.prims [.int, .int])
  | _ => exact h.prim _

theorem callable (ht : t.CallableIn P) : P t := by
  obtain ⟨b, rfl, hparams, hret⟩ := ht
  exact h.builtin hparams hret

theorem callable_ofShapes (name : String) (shapes : List Shape × Shape) :
    (Builtin.ofShapes name shapes).CallableIn P := by
  refine ⟨_, rfl, ?_, h.shape shapes.2⟩
  intro t ht
  obtain ⟨shape, -, rfl⟩ := List.mem_map.1 ht
  exact h.shape shape

theorem callable_objectMethod? {name : String} (ht : Builtin.objectMethod? name = some t) :
    t.CallableIn P := by
  obtain ⟨shapes, -, rfl⟩ := Option.map_eq_some_iff.1 ht
  exact h.callable_ofShapes name shapes

theorem callable_member? {name : String} (hc : P (.container c)) (ht : c.member? name = some t) :
    t.CallableIn P := by
  have method {params : List Ty} {ret t : Ty} (hparams : ∀ s ∈ params, P s) (hret : P ret)
      (ht : some (Ty.builtin ⟨name, params, ret⟩) = some t) : t.CallableIn P :=
    ⟨_, (Option.some.inj ht).symm, hparams, hret⟩
  have none {ret t : Ty} (hret : P ret) (ht : some (Ty.builtin ⟨name, [], ret⟩) = some t) :
      t.CallableIn P :=
    method (h.prims []) hret ht
  have anything {ret t : Ty} (hret : P ret) (ht : some (Ty.builtin ⟨name, [.any], ret⟩) = some t) :
      t.CallableIn P :=
    method (List.forall_mem_singleton.2 h.any) hret ht
  have helement := h.containerElementType hc
  have hvalue := h.valueType hc
  have hpair : P (.tupleOf [c.elementType, c.valueType]) :=
    h.tupleOf (List.forall_mem_cons.2 ⟨helement, List.forall_mem_singleton.2 hvalue⟩)
  unfold Container.member? at ht
  split at ht
  · exact none (h.prim _) ht
  · exact anything (h.prim _) ht
  · exact none hc ht
  split at ht <;> split at ht
  -- Tuples.
  iterate 2 exact anything (h.prim _) ht
  · exact anything helement ht
  · exact h.callable_objectMethod? ht
  -- Lists.
  iterate 3 exact anything (h.prim _) ht
  · exact method (List.forall_mem_cons.2 ⟨h.prim .int, List.forall_mem_singleton.2 h.any⟩) (h.prim _) ht
  iterate 2 exact anything helement ht
  iterate 2 exact anything (h.prim _) ht
  · exact none hc ht
  iterate 3 exact none (h.prim _) ht
  · exact h.callable_objectMethod? ht
  -- Dicts.
  · exact none (h.listOf (h.elts hc)) ht
  · exact none (h.listOf (h.values hc)) ht
  · exact none (h.listOf (List.forall_mem_singleton.2 hpair)) ht
  · exact none hpair ht
  iterate 4 exact anything hvalue ht
  · exact anything (h.prim _) ht
  · exact none hc ht
  · exact anything (h.empty _) ht
  · exact none (h.prim _) ht
  · exact h.callable_objectMethod? ht
  -- Sets.
  iterate 4 exact anything (h.prim _) ht
  · exact none helement ht
  iterate 4 exact anything hc ht
  iterate 3 exact anything (h.prim _) ht
  · exact none hc ht
  · exact none (h.prim _) ht
  · exact h.callable_objectMethod? ht

theorem combineScalars {op : BinaryOp} {left right : Prim}
    (ht : Prim.combine? op left right = some t) : P t := by
  unfold Prim.combine? at ht
  simp only at ht
  repeat' split at ht
  all_goals cases ht
  all_goals exact h.prim _

section Arena

variable {a : Arena} {op : BinaryOp} {left right : Ty}

omit h in
theorem combineConsistent (hl : P left) (ht : a.combineConsistent op left right = .ok t) : P t := by
  unfold Arena.combineConsistent at ht
  split at ht
  · cases ht
    exact hl
  · cases ht

theorem combineSingle (hl : P left) (hr : P right) (ht : a.combineSingle op left right = .ok t) :
    P t := by
  have consistent {t : Ty} (ht : a.combineConsistent op left right = .ok t) : P t :=
    combineConsistent hl ht
  have otherwise {t : Ty} (ht : (if a.hasUnknownBase left || a.hasUnknownBase right then .ok .any
      else a.combineConsistent op left right) = .ok t) : P t := by
    split at ht
    · cases ht
      exact h.any
    · exact consistent ht
  unfold Arena.combineSingle at ht
  split at ht
  · cases ht
    exact h.any
  simp only at ht
  split at ht
  · split at ht
    · cases ht
      exact h.combineScalars ‹_›
    · exact consistent ht
  · split at ht
    · cases ht
      exact hl
    · split at ht
      · cases ht
        exact hr
      · exact otherwise ht
  · split at ht
    · cases ht
      exact hl
    · exact otherwise ht
  · split at ht
    · cases ht
      exact hl
    · exact otherwise ht
  · split at ht
    · rename_i hkinds
      simp only [Bool.and_eq_true, beq_iff_eq] at hkinds
      cases ht
      exact h.extended hl hr hkinds.1.2
    · exact otherwise ht
  · exact otherwise ht

theorem combine (hl : P left) (hr : P right) (ht : a.combine op left right = .ok t) : P t := by
  -- By induction on the size of the operands: a union is combined alternative by alternative.
  induction hn : sizeOf left + sizeOf right using Nat.strongRecOn generalizing left right t with
  | _ n ih =>
    rw [Arena.combine] at ht
    split at ht
    · cases ht
      exact h.any
    split at ht
    · rename_i hunion
      simp only at ht
      split at ht
      · cases ht
      · cases ht
        apply h.oneOf_weighted
        intro item hitem
        obtain ⟨l, -, hmem⟩ := List.mem_flatMap.1 hitem
        obtain ⟨r, -, hmem⟩ := List.mem_filterMap.1 hmem
        have hsl := Ty.sizeOf_of_mem_alternatives l.2
        have hsr := Ty.sizeOf_of_mem_alternatives r.2
        split at hmem
        · rename_i s hs
          cases hmem
          refine ih _ ?_ (h.alternatives hl l.2) (h.alternatives hr r.2) hs rfl
          rcases Bool.or_eq_true _ _ ▸ hunion with hu | hu
          · have := hsl.2 hu
            omega
          · have := hsr.2 hu
            omega
        · cases hmem
    · exact h.combineSingle hl hr ht

end Arena

theorem applyUnary (op : UnaryOp) (ht : P t) : P (t.applyUnary op) := by
  induction t using Ty.applyUnary.induct op with
  | case1 t hnot =>
    rw [Ty.applyUnary.eq_def, if_pos hnot]
    exact h.prim _
  | case2 hop u ih =>
    rw [Ty.applyUnary.eq_def, if_neg hop]
    exact h.oneOf_map _ fun t => ih t.1 t.2 (h.ofUnion ht t.1 t.2)
  | case3 hop p hnumeric =>
    rw [Ty.applyUnary, if_neg hop, if_pos hnumeric]
    exact h.any
  | case4 hop p hnumeric hinvert =>
    rw [Ty.applyUnary, if_neg hop, if_neg hnumeric, if_pos hinvert]
    exact h.any
  | case5 hop p hnumeric hinvert =>
    rw [Ty.applyUnary, if_neg hop, if_neg hnumeric, if_neg hinvert]
    exact h.prim _
  | case6 t hop hunion hprim =>
    rw [Ty.applyUnary, if_neg hop]
    · exact h.any
    all_goals assumption

end Ty.Stable

end Credence

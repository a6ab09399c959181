import Mathlib.Data.List.Pairwise
import Credence.Types.Container

namespace Credence

/-- A member of a list is not like any after it. -/
def Ty.Distinct (ts : List Ty) : Prop :=
  ts.Pairwise fun a b => a.alike b = false

def Ty.isLeaf : Ty → Bool
  | container _ | union _ => false
  | _ => true

/-- What a container keeps once, it holds once. -/
structure Container.Distinct (c : Container Ty) : Prop where
  elts : c.kind = .list ∨ c.kind = .set → Ty.Distinct c.elts
  values : c.kind = .dict → c.values.length = c.elts.length
  pairs : c.kind = .dict →
    c.pairs.Pairwise fun p q => (p.1.alike q.1 && p.2.alike q.2) = false

/-- The normal form of a union: different alternatives that can be no further split, those that can be
hashed first, with a probability each. -/
structure Union.Normal (u : Union Ty) : Prop where
  distinct : Ty.Distinct u.elts
  isUnion : ∀ t ∈ u.elts, t.isUnion = false
  isUndefined : ∀ t ∈ u.elts, t.isUndefined = false
  hashable : u.elts.filter (·.isHashable) ++ u.elts.filter (!·.isHashable) = u.elts
  probs : u.probs.length = u.elts.length

structure Union.Flat (u : Union Ty) : Prop where
  isUnion : ∀ t ∈ u.elts, t.isUnion = false
  probs : u.probs.length = u.elts.length

/-- Types that are in normal form all the way down. The signature of a builtin does not count. -/
inductive Ty.Normal : Ty → Prop
  | leaf {t : Ty} (h : t.isLeaf = true) : Normal t
  | container {c : Container Ty} (distinct : c.Distinct) (elts : ∀ t ∈ c.elts, Normal t)
      (values : ∀ t ∈ c.values, Normal t) : Normal (.container c)
  | union {u : Union Ty} (normal : u.Normal) (elts : ∀ t ∈ u.elts, Normal t) : Normal (.union u)

/-- Types that are built by the operations on containers and unions from types without parts. -/
inductive Ty.Built : Ty → Prop
  | leaf {t : Ty} (h : t.isLeaf = true) : Built t
  | ofElts (kind : ContainerKind) {elts : List Ty} (h : ∀ t ∈ elts, Built t) :
      Built (.container (.ofElts kind elts))
  | ofWeighted (kind : ContainerKind) {elts : List Ty} (probs : List Float)
      (h : ∀ t ∈ elts, Built t) : Built (.container (.ofWeighted kind elts probs))
  | ofPairs {keys values : List Ty} (hkeys : ∀ t ∈ keys, Built t)
      (hvalues : ∀ t ∈ values, Built t) : Built (.container (.ofPairs keys values))
  | push {c : Container Ty} {elt : Ty} {value? : Option Ty} (hc : Built (.container c))
      (helt : Built elt) (hvalue : ∀ t ∈ value?, Built t) : Built (.container (c.push elt value?))
  | union {elts : List Ty} (weights? : Option (List Float)) (h : ∀ t ∈ elts, Built t) :
      Built (.union (.ofList elts weights?))
  | oneOf {elts : List Ty} (weights? : Option (List Float)) (h : ∀ t ∈ elts, Built t) :
      Built (.oneOf elts weights?)

/-- The types that a type lists: the alternatives of a union, or else itself. -/
def Ty.parts : Ty → List Ty
  | union u => u.elts
  | t => [t]

theorem Ty.Distinct.concat {t : Ty} {ts : List Ty} (h : Distinct ts) (ht : t.among ts = false) :
    Distinct (ts ++ [t]) := by
  refine List.pairwise_append.2 ⟨h, List.pairwise_singleton _ _, fun a ha b hb => ?_⟩
  rw [List.mem_singleton.1 hb]
  exact Bool.eq_false_iff.2 (List.any_eq_false.1 ht a ha)

theorem Ty.Normal.of_mem_parts {s t : Ty} (hs : s.Normal) (ht : t ∈ s.parts) : t.Normal := by
  cases s with
  | union u =>
    cases hs with
    | leaf h => cases h
    | union _ elts => exact elts t ht
  | _ => exact List.mem_singleton.1 ht ▸ hs

theorem Ty.Normal.of_union {u : Union Ty} (h : (Ty.union u).Normal) : u.Normal := by
  cases h with
  | leaf h => cases h
  | union normal _ => exact normal

theorem Ty.isHashable_of_alike {a b : Ty} (h : a.alike b = true) : a.isHashable = b.isHashable := by
  unfold alike at h
  split at h
  any_goals rfl
  · simp only [Bool.and_eq_true, beq_iff_eq] at h
    exact congrArg (· == ContainerKind.tuple) h.1.1
  · cases h

theorem Ty.flatMap_parts {ts : List Ty} (h : ∀ t ∈ ts, t.isUnion = false) :
    ts.flatMap parts = ts := by
  induction ts with
  | nil => rfl
  | cons t ts ih =>
    obtain ⟨ht, hts⟩ := List.forall_mem_cons.1 h
    rw [List.flatMap_cons, ih hts]
    cases t with
    | union u => cases ht
    | _ => rfl

namespace Union

abbrev types (items : List (Ty × Float)) : List Ty :=
  items.map (·.1)

theorem types_merge (item : Ty × Float) (found : List (Ty × Float)) :
    types (merge item found) =
      if item.1.among (types found) then types found else types found ++ [item.1] := by
  induction found with
  | nil => rfl
  | cons first rest ih =>
    have hamong : item.1.among (types (first :: rest)) =
        (first.1.alike item.1 || item.1.among (types rest)) := rfl
    rw [hamong]
    unfold merge
    cases first.1.alike item.1 with
    | true => rfl
    | false =>
      rw [Bool.false_or, if_neg Bool.false_ne_true]
      change first.1 :: types (merge item rest) = _
      rw [ih]
      split <;> rfl

theorem distinct_types_merge {item : Ty × Float} {found : List (Ty × Float)}
    (h : Ty.Distinct (types found)) : Ty.Distinct (types (merge item found)) := by
  rw [types_merge]
  split
  · exact h
  · rename_i hamong
    exact h.concat (Bool.eq_false_iff.2 hamong)

theorem distinct_types_mergeAll (items : List (Ty × Float)) :
    Ty.Distinct (types (mergeAll items)) := by
  suffices ∀ found, Ty.Distinct (types found) →
      Ty.Distinct (types (items.foldl (fun entries item => merge item entries) found)) from
    this [] List.Pairwise.nil
  induction items with
  | nil => exact fun found h => h
  | cons item items ih => exact fun found h => ih _ (distinct_types_merge h)

theorem length_shares (weights : List Float) : (shares weights).length = weights.length := by
  unfold shares
  simp only
  split
  · exact List.length_map _
  · exact List.length_replicate

theorem length_weightsFor (count : Nat) (weights? : Option (List Float)) :
    (weightsFor count weights?).length = count := by
  unfold weightsFor
  split
  · split
    · rename_i h
      exact beq_iff_eq.1 (Bool.and_eq_true_iff.1 h).1
    · exact List.length_replicate
  · exact List.length_replicate

theorem types_filter (p : Ty → Bool) (items : List (Ty × Float)) :
    types (items.filter fun item => p item.1) = (types items).filter p :=
  List.filter_map.symm

theorem types_flatten {item : Ty × Float}
    (h : ∀ u, item.1 = .union u → u.probs.length = u.elts.length) :
    types (flatten item) = item.1.parts := by
  obtain ⟨t, w⟩ := item
  cases t with
  | union u =>
    change (u.items.map _).map _ = u.elts
    rw [List.map_map]
    exact List.map_fst_zip (Nat.le_of_eq (h u rfl).symm)
  | _ => rfl

theorem types_flatItems {elts : List Ty} (weights? : Option (List Float))
    (h : ∀ u, Ty.union u ∈ elts → u.probs.length = u.elts.length) :
    types (flatItems elts weights?) = (elts.flatMap Ty.parts).filter fun t => !t.isUndefined := by
  have hflat (items : List (Ty × Float)) (hitems : ∀ item ∈ items, item.1 ∈ elts) :
      types (items.flatMap flatten) = (types items).flatMap Ty.parts := by
    induction items with
    | nil => rfl
    | cons item items ih =>
      obtain ⟨hitem, hrest⟩ := List.forall_mem_cons.1 hitems
      have hparts := types_flatten fun u hu => h u (hu ▸ hitem)
      change (flatten item ++ items.flatMap flatten).map _ = item.1.parts ++ (types items).flatMap Ty.parts
      rw [List.map_append, ← hparts, ← ih hrest]
  have htypes : types (elts.zip (weightsFor elts.length weights?)) = elts :=
    List.map_fst_zip (Nat.le_of_eq (length_weightsFor _ _).symm)
  unfold flatItems
  rw [types_filter fun t => !t.isUndefined, hflat _ fun item hitem => (List.of_mem_zip hitem).1,
    htypes]

theorem elts_ofList (elts : List Ty) (weights? : Option (List Float)) :
    (ofList elts weights?).elts =
      types (mergeAll ((flatItems elts weights?).filter (·.1.isHashable))) ++
        types (mergeAll ((flatItems elts weights?).filter (!·.1.isHashable))) :=
  List.map_append

theorem length_probs_ofList (elts : List Ty) (weights? : Option (List Float)) :
    (ofList elts weights?).probs.length = (ofList elts weights?).elts.length := by
  unfold ofList
  rw [length_shares, List.length_map, List.length_map]

theorem mem_types_mergeAll {items : List (Ty × Float)} {t : Ty} (h : t ∈ types (mergeAll items)) :
    t ∈ types items := by
  obtain ⟨entry, hentry, rfl⟩ := List.mem_map.1 h
  obtain ⟨item, hitem, heq⟩ := mem_mergeAll hentry
  exact heq ▸ List.mem_map_of_mem hitem

theorem isHashable_of_mem_mergeAll {items : List (Ty × Float)} {p : Ty → Bool} {t : Ty}
    (h : t ∈ types (mergeAll (items.filter fun item => p item.1))) : p t = true := by
  have hmem := mem_types_mergeAll h
  rw [types_filter] at hmem
  exact (List.mem_filter.1 hmem).2

theorem mem_parts_of_mem_ofList {elts : List Ty} {weights? : Option (List Float)} {t : Ty}
    (h : ∀ u, Ty.union u ∈ elts → u.probs.length = u.elts.length)
    (ht : t ∈ (ofList elts weights?).elts) :
    (∃ s ∈ elts, t ∈ s.parts) ∧ t.isUndefined = false := by
  have hitems : t ∈ types (flatItems elts weights?) := by
    rw [elts_ofList] at ht
    rcases List.mem_append.1 ht with ht | ht
    all_goals
      obtain ⟨item, hitem, rfl⟩ := List.mem_map.1 (mem_types_mergeAll ht)
      exact List.mem_map_of_mem (List.mem_filter.1 hitem).1
  rw [types_flatItems weights? h] at hitems
  obtain ⟨hparts, hundefined⟩ := List.mem_filter.1 hitems
  exact ⟨List.mem_flatMap.1 hparts, by simpa using hundefined⟩

theorem Normal.flat {u : Union Ty} (h : u.Normal) : u.Flat :=
  ⟨h.isUnion, h.probs⟩

theorem isUnion_of_mem_parts {s t : Ty} (hs : ∀ u, s = .union u → u.Flat) (ht : t ∈ s.parts) :
    t.isUnion = false := by
  cases s with
  | union u => exact (hs u rfl).isUnion t ht
  | _ => exact List.mem_singleton.1 ht ▸ rfl

theorem filter_append_filter_not {α : Type} {p : α → Bool} {xs ys : List α}
    (hx : ∀ x ∈ xs, p x = true) (hy : ∀ y ∈ ys, (!p y) = true) :
    (xs ++ ys).filter p ++ (xs ++ ys).filter (!p ·) = xs ++ ys := by
  have hxs : xs.filter (!p ·) = [] := List.filter_eq_nil_iff.2 fun x h => by simp [hx x h]
  have hys : ys.filter p = [] := List.filter_eq_nil_iff.2 fun y h => by simpa using hy y h
  rw [List.filter_append, List.filter_append, hxs, hys, List.filter_eq_self.2 hx,
    List.filter_eq_self.2 hy, List.append_nil, List.nil_append]

theorem normal_ofList {elts : List Ty} (weights? : Option (List Float))
    (h : ∀ u, Ty.union u ∈ elts → u.Flat) : (ofList elts weights?).Normal := by
  have hmem {t : Ty} (ht : t ∈ (ofList elts weights?).elts) :=
    mem_parts_of_mem_ofList (fun u hu => (h u hu).probs) ht
  have hyes {t : Ty} (ht : t ∈ types (mergeAll ((flatItems elts weights?).filter (·.1.isHashable)))) :
      t.isHashable = true :=
    isHashable_of_mem_mergeAll (p := Ty.isHashable) ht
  have hno {t : Ty} (ht : t ∈ types (mergeAll ((flatItems elts weights?).filter (!·.1.isHashable)))) :
      (!t.isHashable) = true :=
    isHashable_of_mem_mergeAll (p := fun t => !t.isHashable) ht
  constructor
  case isUnion =>
    intro t ht
    obtain ⟨⟨s, hs, hparts⟩, _⟩ := hmem ht
    exact isUnion_of_mem_parts (fun u hu => h u (hu ▸ hs)) hparts
  case isUndefined => exact fun t ht => (hmem ht).2
  case probs => exact length_probs_ofList elts weights?
  case distinct =>
    rw [elts_ofList]
    refine List.pairwise_append.2 ⟨distinct_types_mergeAll _, distinct_types_mergeAll _, ?_⟩
    intro a ha b hb
    refine Bool.eq_false_iff.2 fun halike => ?_
    have heq := Ty.isHashable_of_alike halike
    have hb := hno hb
    rw [← heq, hyes ha] at hb
    cases hb
  case hashable =>
    rw [elts_ofList]
    exact filter_append_filter_not (fun t ht => hyes ht) fun t ht => hno ht

theorem types_mergeAll_of_distinct {items : List (Ty × Float)} (h : Ty.Distinct (types items)) :
    types (mergeAll items) = types items := by
  suffices ∀ found, Ty.Distinct (types found ++ types items) →
      types (items.foldl (fun entries item => merge item entries) found) =
        types found ++ types items from
    this [] h
  clear h
  induction items with
  | nil => exact fun found _ => (List.append_nil _).symm
  | cons item items ih =>
    intro found hdistinct
    have hnew : item.1.among (types found) = false :=
      List.any_eq_false.2 fun t ht =>
        Bool.eq_false_iff.1 ((List.pairwise_append.1 hdistinct).2.2 t ht item.1 List.mem_cons_self)
    have hmerge : types (merge item found) = types found ++ [item.1] := by
      rw [types_merge, hnew, if_neg Bool.false_ne_true]
    have hsplit : types found ++ types (item :: items) =
        types (merge item found) ++ types items := by
      rw [hmerge, List.append_assoc]
      rfl
    rw [hsplit] at hdistinct ⊢
    exact ih _ hdistinct

theorem Normal.elts_ofList {u : Union Ty} (h : u.Normal) (weights? : Option (List Float)) :
    (ofList u.elts weights?).elts = u.elts := by
  have hprobs (v : Union Ty) (hv : Ty.union v ∈ u.elts) : v.probs.length = v.elts.length :=
    absurd (h.isUnion _ hv) Bool.noConfusion
  have htypes : types (flatItems u.elts weights?) = u.elts := by
    rw [types_flatItems weights? hprobs, Ty.flatMap_parts h.isUnion]
    exact List.filter_eq_self.2 fun t ht => by rw [h.isUndefined t ht]; rfl
  have hmerge (p : Ty → Bool) :
      types (mergeAll ((flatItems u.elts weights?).filter fun item => p item.1)) =
        u.elts.filter p := by
    rw [types_mergeAll_of_distinct, types_filter, htypes]
    rw [types_filter, htypes]
    exact h.distinct.filter _
  rw [Union.elts_ofList, hmerge, hmerge fun t => !t.isHashable]
  exact h.hashable

end Union

namespace Container

theorem pushWith_cases (c : Container Ty) (elt : Ty) (value? : Option Ty) (prob : Float) :
    c.pushWith elt value? prob = c ∨
      elt.isUndefined = false ∧
        c.pushWith elt value? prob =
          { c with
            elts := c.elts ++ [elt]
            values := if c.kind = .dict then c.values ++ [value?.getD .any] else c.values
            probs := c.probs ++ [prob] } := by
  unfold pushWith
  split
  · exact .inl rfl
  · rename_i hdefined
    have hdefined := Bool.eq_false_iff.2 hdefined
    cases hkind : c.kind
    case tuple => exact .inr ⟨hdefined, by simp⟩
    all_goals
      dsimp only
      split
      · exact .inl rfl
      · exact .inr ⟨hdefined, by simp⟩

theorem kind_push (c : Container Ty) (t : Ty) : (c.push t).kind = c.kind := by
  obtain hsame | ⟨-, hmore⟩ := c.pushWith_cases t none 1.0
  · rw [push, hsame]
  · rw [push, hmore]

theorem kind_foldl_push (c : Container Ty) (ts : List Ty) :
    (ts.foldl (fun c t => c.push t) c).kind = c.kind := by
  refine List.foldlRecOn ts _ (motive := fun d : Container Ty => d.kind = c.kind) rfl ?_
  intro d hd t _
  exact (d.kind_push t).trans hd

theorem elts_foldl_push_tuple {c : Container Ty} (hkind : c.kind = .tuple) (ts : List Ty) :
    (ts.foldl (fun c t => c.push t) c).elts = c.elts ++ ts.filter fun t => !t.isUndefined := by
  induction ts generalizing c with
  | nil => exact (List.append_nil _).symm
  | cons t ts ih =>
    rw [List.foldl_cons, ih ((c.kind_push t).trans hkind)]
    cases hdefined : t.isUndefined with
    | true => simp [push, pushWith, hdefined]
    | false => simp [push, pushWith, hdefined, hkind]

theorem mem_elts_pushWith {c : Container Ty} {elt t : Ty} {value? : Option Ty} {prob : Float}
    (h : t ∈ (c.pushWith elt value? prob).elts) : t ∈ c.elts ∨ t = elt := by
  rcases pushWith_cases c elt value? prob with hsame | ⟨-, hmore⟩
  · exact .inl (hsame ▸ h)
  · rw [hmore] at h
    exact (List.mem_append.1 h).imp_right List.mem_singleton.1

theorem mem_values_pushWith {c : Container Ty} {elt t : Ty} {value? : Option Ty} {prob : Float}
    (h : t ∈ (c.pushWith elt value? prob).values) : t ∈ c.values ∨ t = value?.getD .any := by
  rcases pushWith_cases c elt value? prob with hsame | ⟨-, hmore⟩
  · exact .inl (hsame ▸ h)
  · rw [hmore] at h
    simp only at h
    split at h
    · exact (List.mem_append.1 h).imp_right List.mem_singleton.1
    · exact .inl h

theorem forall_elts_pushWith {P : Ty → Prop} {c : Container Ty} {elt : Ty} (value? : Option Ty)
    (prob : Float) (hc : ∀ t ∈ c.elts, P t) (helt : P elt) :
    ∀ t ∈ (c.pushWith elt value? prob).elts, P t := by
  intro t ht
  rcases mem_elts_pushWith ht with ht | rfl
  · exact hc t ht
  · exact helt

theorem forall_values_pushWith {P : Ty → Prop} {c : Container Ty} (elt : Ty) {value? : Option Ty}
    (prob : Float) (hany : P .any) (hc : ∀ t ∈ c.values, P t) (hvalue : ∀ t ∈ value?, P t) :
    ∀ t ∈ (c.pushWith elt value? prob).values, P t := by
  intro t ht
  rcases mem_values_pushWith ht with ht | rfl
  · exact hc t ht
  · cases value? with
    | none => exact hany
    | some value => exact hvalue value rfl

theorem Distinct.pushWith {c : Container Ty} (h : c.Distinct) (elt : Ty) (value? : Option Ty)
    (prob : Float) : (c.pushWith elt value? prob).Distinct := by
  have hbag (hkind : c.kind = .list ∨ c.kind = .set) (hne : c.kind ≠ .dict)
      (hamong : elt.among c.elts = false) :
      Distinct { c with elts := c.elts ++ [elt], probs := c.probs ++ [prob] } :=
    ⟨fun _ => (h.elts hkind).concat hamong, fun hk => absurd hk hne, fun hk => absurd hk hne⟩
  unfold Container.pushWith
  split
  · exact h
  split
  case h_1 hkind =>
    exact ⟨fun hk => by simp [hkind] at hk, fun hk => by simp [hkind] at hk,
      fun hk => by simp [hkind] at hk⟩
  case h_2 hkind =>
    split
    · exact h
    · exact hbag (.inl hkind) (by simp [hkind]) (Bool.eq_false_iff.2 ‹_›)
  case h_3 hkind =>
    split
    · exact h
    · exact hbag (.inr hkind) (by simp [hkind]) (Bool.eq_false_iff.2 ‹_›)
  case h_4 hkind =>
    simp only
    split
    · exact h
    · rename_i hnew
      have hlen := h.values hkind
      refine ⟨fun hk => by simp [hkind] at hk, fun _ => by simp [hlen], fun _ => ?_⟩
      change ((c.elts ++ [elt]).zip (c.values ++ [value?.getD .any])).Pairwise _
      rw [List.zip_append hlen.symm]
      refine List.pairwise_append.2 ⟨h.pairs hkind, List.pairwise_singleton _ _, fun p hp q hq => ?_⟩
      rw [List.mem_singleton.1 hq]
      exact Bool.eq_false_iff.2 fun hlike => hnew (List.any_eq_true.2 ⟨p, hp, hlike⟩)

theorem distinct_empty (kind : ContainerKind) : Distinct { kind } :=
  ⟨fun _ => List.Pairwise.nil, fun _ => rfl, fun _ => List.Pairwise.nil⟩

end Container

namespace Ty

variable {c : Container Ty}

theorem normal_empty (kind : ContainerKind) : Normal (.container { kind }) :=
  .container (Container.distinct_empty kind) (fun _ h => nomatch h) fun _ h => nomatch h

theorem Normal.pushWith {elt : Ty} {value? : Option Ty} (hc : Normal (.container c))
    (helt : elt.Normal) (hvalue : ∀ t ∈ value?, t.Normal) (prob : Float) :
    Normal (.container (c.pushWith elt value? prob)) := by
  cases hc with
  | leaf h => cases h
  | container distinct elts values =>
    exact .container (distinct.pushWith elt value? prob)
      (Container.forall_elts_pushWith value? prob elts helt)
      (Container.forall_values_pushWith elt prob (.leaf rfl) values hvalue)

theorem normal_ofElts (kind : ContainerKind) {elts : List Ty} (h : ∀ t ∈ elts, t.Normal) :
    Normal (.container (.ofElts kind elts)) := by
  refine List.foldlRecOn elts _ (motive := fun c => Normal (.container c)) (normal_empty kind) ?_
  intro c hc t ht
  exact hc.pushWith (h t ht) (fun _ hv => absurd hv (Option.not_mem_none _)) 1.0

theorem normal_ofWeighted (kind : ContainerKind) {elts : List Ty} (probs : List Float)
    (h : ∀ t ∈ elts, t.Normal) : Normal (.container (.ofWeighted kind elts probs)) := by
  refine List.foldlRecOn _ _ (motive := fun c => Normal (.container c)) (normal_empty kind) ?_
  intro c hc item hitem
  exact hc.pushWith (h _ (List.of_mem_zip hitem).1) (fun _ hv => absurd hv (Option.not_mem_none _)) item.2

theorem normal_ofPairs {keys values : List Ty} (hkeys : ∀ t ∈ keys, t.Normal)
    (hvalues : ∀ t ∈ values, t.Normal) : Normal (.container (.ofPairs keys values)) := by
  refine List.foldlRecOn _ _ (motive := fun c => Normal (.container c)) (normal_empty .dict) ?_
  intro c hc item hitem
  obtain ⟨hk, hv⟩ := List.of_mem_zip hitem
  refine hc.pushWith (hkeys _ hk) (fun t ht => ?_) 1.0
  cases ht
  exact hvalues _ hv

theorem normal_union {elts : List Ty} (weights? : Option (List Float)) (h : ∀ t ∈ elts, t.Normal) :
    Normal (.union (.ofList elts weights?)) := by
  have hunion (u : Union Ty) (hu : Ty.union u ∈ elts) : u.Flat := (h _ hu).of_union.flat
  refine .union (Union.normal_ofList weights? hunion) fun t ht => ?_
  obtain ⟨⟨s, hs, hparts⟩, _⟩ :=
    Union.mem_parts_of_mem_ofList (fun u hu => (hunion u hu).probs) ht
  exact (h s hs).of_mem_parts hparts

/-- What holds of anything, of the alternatives of a union and, if there are two, of the union holds of
what a union comes to. -/
theorem of_oneOf {P : Ty → Prop} {elts : List Ty} {weights? : Option (List Float)} (hany : P .any)
    (helts : ∀ t ∈ (Union.ofList elts weights?).elts, P t)
    (hunion : 2 ≤ (Union.ofList elts weights?).elts.length → P (.union (.ofList elts weights?))) :
    P (.oneOf elts weights?) := by
  unfold oneOf
  simp only
  split
  · exact hany
  · rename_i t ht
    exact helts t (by simp [ht])
  · rename_i hnil hone
    apply hunion
    match hcase : (Union.ofList elts weights?).elts with
    | [] => exact absurd hcase hnil
    | [t] => exact absurd hcase (hone t)
    | _ :: _ :: _ => simp

theorem normal_oneOf {elts : List Ty} (weights? : Option (List Float)) (h : ∀ t ∈ elts, t.Normal) :
    Normal (.oneOf elts weights?) := by
  have hu := normal_union weights? h
  exact of_oneOf (.leaf rfl) (fun t ht => hu.of_mem_parts ht) fun _ => hu

theorem Built.normal {t : Ty} (h : t.Built) : t.Normal := by
  induction h with
  | leaf h => exact .leaf h
  | ofElts kind _ ih => exact normal_ofElts kind ih
  | ofWeighted kind probs _ ih => exact normal_ofWeighted kind probs ih
  | ofPairs _ _ hkeys hvalues => exact normal_ofPairs hkeys hvalues
  | push _ _ _ hc helt hvalue => exact hc.pushWith helt hvalue 1.0
  | union weights? _ ih => exact normal_union weights? ih
  | oneOf weights? _ ih => exact normal_oneOf weights? ih

end Ty

end Credence

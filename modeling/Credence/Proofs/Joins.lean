import Credence.Check.Call
import Credence.Proofs.Alternatives
import Credence.Proofs.Subtype

namespace Credence

namespace Ty

/-- Types that are built by the operations on containers and by joining types, from types without
parts. -/
inductive Composed : Ty → Prop
  | leaf {t : Ty} (h : t.isLeaf = true) : Composed t
  | ofElts (kind : ContainerKind) {elts : List Ty} (h : ∀ t ∈ elts, Composed t) :
      Composed (.container (.ofElts kind elts))
  | ofWeighted (kind : ContainerKind) {elts : List Ty} (probs : List Float)
      (h : ∀ t ∈ elts, Composed t) : Composed (.container (.ofWeighted kind elts probs))
  | ofPairs {keys values : List Ty} (hkeys : ∀ t ∈ keys, Composed t)
      (hvalues : ∀ t ∈ values, Composed t) : Composed (.container (.ofPairs keys values))
  | push {c : Container Ty} {elt : Ty} {value? : Option Ty} (hc : Composed (.container c))
      (helt : Composed elt) (hvalue : ∀ t ∈ value?, Composed t) :
      Composed (.container (c.push elt value?))
  | oneOf {elts : List Ty} (weights? : Option (List Float)) (h : ∀ t ∈ elts, Composed t) :
      Composed (.oneOf elts weights?)

theorem Composed.built {t : Ty} (h : t.Composed) : t.Built := by
  induction h with
  | leaf h => exact .leaf h
  | ofElts kind _ ih => exact .ofElts kind ih
  | ofWeighted kind probs _ ih => exact .ofWeighted kind probs ih
  | ofPairs _ _ hkeys hvalues => exact .ofPairs hkeys hvalues
  | push _ _ _ hc helt hvalue => exact .push hc helt hvalue
  | oneOf weights? _ ih => exact .oneOf weights? ih

variable {s t : Ty} {xs ys : List Ty} {w w' : Option (List Float)}

theorem oneOf_of_nil (h : (Union.ofList xs w).elts = []) : oneOf xs w = any := by
  unfold oneOf
  simp only [h]

theorem oneOf_of_singleton (h : (Union.ofList xs w).elts = [t]) : oneOf xs w = t := by
  unfold oneOf
  simp only [h]

theorem oneOf_of_two (h : 2 ≤ (Union.ofList xs w).elts.length) :
    oneOf xs w = .union (.ofList xs w) := by
  unfold oneOf
  simp only
  split
  · rename_i hnil
    simp [hnil] at h
  · rename_i hone
    simp [hone] at h
  · rfl

theorem parts_oneOf (hxs : ∀ x ∈ xs, x.Normal) (hne : (Union.ofList xs w).elts ≠ []) :
    (oneOf xs w).parts = (Union.ofList xs w).elts := by
  have hunion := (normal_union w hxs).of_union.isUnion
  match hcase : (Union.ofList xs w).elts with
  | [] => exact absurd hcase hne
  | [t] =>
    rw [oneOf_of_singleton hcase]
    have ht := hunion t (hcase ▸ List.mem_singleton_self t)
    cases t with
    | union u => cases ht
    | _ => rfl
  | x :: y :: l =>
    rw [oneOf_of_two (by simp [hcase]), ← hcase]
    rfl

theorem Composed.parts_ne (h : t.Composed) : t.parts ≠ [] := by
  cases h with
  | @oneOf elts w h =>
    by_cases hne : (Union.ofList elts w).elts = []
    · rw [oneOf_of_nil hne]
      exact List.cons_ne_nil _ _
    · rw [parts_oneOf (fun t ht => (h t ht).built.normal) hne]
      exact hne
  | leaf h =>
    cases t with
    | union => cases h
    | _ => exact List.cons_ne_nil _ _
  | _ => exact List.cons_ne_nil _ _

theorem parts_of_isUnion_eq_false (h : t.isUnion = false) : t.parts = [t] := by
  cases t with
  | union => cases h
  | _ => rfl

theorem Same.sameMembers_parts (h : s.Same t) : SameMembers s.parts t.parts := by
  cases hs : s.isUnion with
  | true =>
    cases s with
    | union u =>
      obtain ⟨v, rfl⟩ := exists_of_alike_union h.alike
      exact h.sameMembers_union
    | _ => cases hs
  | false =>
    rw [parts_of_isUnion_eq_false hs, parts_of_isUnion_eq_false (h.isUnion_eq ▸ hs)]
    exact .map id id (List.forall_mem_singleton.2 ⟨t, List.mem_singleton_self t, h⟩)
      (List.forall_mem_singleton.2 ⟨s, List.mem_singleton_self s, h⟩)

theorem Same.isUndefined_eq (h : s.Same t) : s.isUndefined = t.isUndefined := by
  have h := h.alike
  unfold Ty.alike at h
  split at h
  any_goals rfl
  cases h

end Ty

namespace Union

open Ty

variable {t : Ty} {xs ys : List Ty} {w w' : Option (List Float)}

theorem mem_given : t ∈ given xs ↔ (∃ x ∈ xs, t ∈ x.parts) ∧ t.isUndefined = false := by
  simp [given]

theorem normal_of_mem_given (h : ∀ x ∈ xs, x.Normal) (ht : t ∈ given xs) : t.Normal := by
  obtain ⟨⟨x, hx, ht⟩, -⟩ := mem_given.1 ht
  exact (h x hx).of_mem_parts ht

theorem given_append (xs ys : List Ty) : given (xs ++ ys) = given xs ++ given ys := by
  unfold given
  rw [List.flatMap_append, List.filter_append]

theorem sameMembers_given (h : SameMembers xs ys) : SameMembers (given xs) (given ys) := by
  constructor
  · intro s hs
    obtain ⟨⟨x, hx, hs⟩, hdefined⟩ := mem_given.1 hs
    obtain ⟨y, hy, hxy⟩ := h.forth x hx
    obtain ⟨t, ht, hst⟩ := hxy.sameMembers_parts.forth s hs
    exact ⟨t, mem_given.2 ⟨⟨y, hy, ht⟩, hst.isUndefined_eq ▸ hdefined⟩, hst⟩
  · intro t ht
    obtain ⟨⟨y, hy, ht⟩, hdefined⟩ := mem_given.1 ht
    obtain ⟨x, hx, hxy⟩ := h.back y hy
    obtain ⟨s, hs, hst⟩ := hxy.sameMembers_parts.back t ht
    exact ⟨s, mem_given.2 ⟨⟨x, hx, hs⟩, hst.isUndefined_eq ▸ hdefined⟩, hst⟩

theorem stands_mergeAll (items : List (Ty × Float)) : Stands (mergeAll items) (types items) := by
  suffices ∀ found seen, Stands found seen →
      Stands (items.foldl (fun entries item => merge item entries) found) (seen ++ types items) from
    this [] [] ⟨fun _ h => h, fun _ h => nomatch h⟩
  induction items with
  | nil => exact fun found seen h => (List.append_nil seen).symm ▸ h
  | cons item items ih =>
    intro found seen h
    have hrest := ih _ _ (h.merge item)
    rwa [List.append_assoc] at hrest

/-- The alternatives of a union are the types that are given, some of them for several. -/
theorem sameMembers_ofList (h : ∀ x ∈ xs, x.Normal) :
    SameMembers (ofList xs w).elts (given xs) := by
  have hprobs (u : Union Ty) (hu : Ty.union u ∈ xs) := (h _ hu).of_union.probs
  constructor
  · intro t ht
    have ht := mem_given.2 (mem_parts_of_mem_ofList hprobs ht)
    exact ⟨t, ht, (normal_of_mem_given h ht).same⟩
  · intro t ht
    have hnormal := normal_of_mem_given h ht
    have hflat : t ∈ types (flatItems xs w) := types_flatItems w hprobs ▸ ht
    have hgroup (p : Ty → Bool) (hp : p t = true) :
        ∃ s ∈ types (mergeAll ((flatItems xs w).filter fun item => p item.1)), s.alike t = true := by
      refine (stands_mergeAll _).alike t ?_
      rw [types_filter]
      exact List.mem_filter.2 ⟨hflat, hp⟩
    have hfound : ∃ s ∈ (ofList xs w).elts, s.alike t = true := by
      rw [elts_ofList]
      cases hhash : t.isHashable with
      | true =>
        obtain ⟨s, hs, hst⟩ := hgroup Ty.isHashable hhash
        exact ⟨s, List.mem_append_left _ hs, hst⟩
      | false =>
        obtain ⟨s, hs, hst⟩ := hgroup (fun t => !t.isHashable) (by rw [hhash]; rfl)
        exact ⟨s, List.mem_append_right _ hs, hst⟩
    obtain ⟨s, hs, hst⟩ := hfound
    exact ⟨s, hs, (normal_union w h).of_mem_union hs, hnormal, hst⟩

theorem mem_given_of_normal (h : ∀ x ∈ xs, x.Normal) :
    t ∈ given xs ↔ ∃ x ∈ xs, x.isUndefined = false ∧ t ∈ x.parts := by
  have hdefined (x : Ty) (hx : x ∈ xs) (ht : t ∈ x.parts) : t.isUndefined = x.isUndefined := by
    cases x with
    | union u => exact (h _ hx).of_union.isUndefined t ht
    | _ => exact congrArg Ty.isUndefined (List.mem_singleton.1 ht)
  rw [mem_given]
  constructor
  · rintro ⟨⟨x, hx, ht⟩, hundefined⟩
    exact ⟨x, hx, hdefined x hx ht ▸ hundefined, ht⟩
  · rintro ⟨x, hx, hundefined, ht⟩
    exact ⟨⟨x, hx, ht⟩, (hdefined x hx ht).trans hundefined⟩

theorem given_ne_nil (h : ∀ x ∈ xs, x.Composed) (hdefined : ∃ x ∈ xs, x.isUndefined = false) :
    given xs ≠ [] := by
  obtain ⟨x, hx, hundefined⟩ := hdefined
  obtain ⟨t, ht⟩ := List.exists_mem_of_ne_nil _ (h x hx).parts_ne
  have ht := (mem_given_of_normal fun x hx => (h x hx).built.normal).2 ⟨x, hx, hundefined, ht⟩
  exact List.ne_nil_of_mem ht

end Union

namespace Ty

variable {s t : Ty} {xs ys : List Ty} {w w' : Option (List Float)}

theorem alike_oneOf (hxs : ∀ x ∈ xs, x.Normal) (hys : ∀ y ∈ ys, y.Normal)
    (h : SameMembers (Union.given xs) (Union.given ys)) :
    (oneOf xs w).alike (oneOf ys w') = true := by
  have hu := normal_union w hxs
  have hv := normal_union w' hys
  have hsame : SameMembers (Union.ofList xs w).elts (Union.ofList ys w').elts :=
    ((Union.sameMembers_ofList hxs).trans h).trans (Union.sameMembers_ofList hys).symm
  have hlen := hsame.length_eq hu.of_union.distinct hv.of_union.distinct
  match hcase : (Union.ofList xs w).elts with
  | [] =>
    rw [oneOf_of_nil hcase, oneOf_of_nil (hsame.eq_nil hcase)]
    exact alike_refl any
  | [t] =>
    rw [hcase] at hlen hsame
    obtain ⟨t', ht'⟩ := List.length_eq_one_iff.1 hlen.symm
    rw [oneOf_of_singleton hcase, oneOf_of_singleton ht']
    obtain ⟨t'', ht'', hlike⟩ := hsame.forth t (List.mem_singleton_self t)
    rw [ht', List.mem_singleton] at ht''
    exact ht'' ▸ hlike.alike
  | x :: y :: l =>
    have htwo : 2 ≤ (Union.ofList xs w).elts.length := by simp [hcase]
    rw [oneOf_of_two htwo, oneOf_of_two (hlen ▸ htwo)]
    refine alike_union.2 ⟨hlen, fun x hx => ?_⟩
    obtain ⟨y, hy, hxy⟩ := hsame.forth x hx
    exact ⟨y, hy, hxy.symm.alike⟩

theorem sameMembers_parts_oneOf (h : ∀ x ∈ xs, x.Normal) (hne : Union.given xs ≠ []) :
    SameMembers (oneOf xs w).parts (Union.given xs) := by
  have hsame := Union.sameMembers_ofList (w := w) h
  rw [parts_oneOf h fun hnil => hne (hsame.eq_nil hnil)]
  exact hsame

theorem sameMembers_given_oneOf (hxs : ∀ x ∈ xs, x.Normal) (hys : ∀ y ∈ ys, y.Normal)
    (hne : Union.given xs ≠ []) :
    SameMembers (Union.given (oneOf xs w :: ys)) (Union.given (xs ++ ys)) := by
  have hparts := sameMembers_parts_oneOf (w := w) hxs hne
  have hself : Union.given [oneOf xs w] = (oneOf xs w).parts := by
    unfold Union.given
    rw [List.flatMap_singleton]
    refine List.filter_eq_self.2 fun t ht => ?_
    obtain ⟨s, hs, hts⟩ := hparts.forth t ht
    rw [hts.isUndefined_eq, (Union.mem_given.1 hs).2]
    rfl
  have hrest := SameMembers.refl fun t ht => Union.normal_of_mem_given hys ht
  have hjoin := hparts.append hrest
  rwa [← hself, ← Union.given_append, ← Union.given_append] at hjoin

end Ty

theorem FunctionInfo.alike_returnedType (f : FunctionInfo) {frame : Frame} {returns : List Ty}
    (hnormal : ∀ t ∈ frame.returns, t.Normal) (hperm : frame.returns.Perm returns) :
    (f.returnedType frame).alike (f.returnedType { frame with returns }) = true := by
  have hnormal' : ∀ t ∈ returns, t.Normal := fun t ht => hnormal t (hperm.mem_iff.2 ht)
  have hnone : ∀ t ∈ [Ty.none], t.Normal := List.forall_mem_singleton.2 (.leaf rfl)
  have hsame := Ty.SameMembers.of_perm hnormal hperm
  unfold returnedType
  cases f.isGenerator with
  | true => exact Ty.alike_refl _
  | false =>
    cases f.alwaysReturns with
    | true => exact Ty.alike_oneOf hnormal hnormal' (Union.sameMembers_given hsame)
    | false =>
      exact Ty.alike_oneOf (List.forall_mem_append.2 ⟨hnormal, hnone⟩)
        (List.forall_mem_append.2 ⟨hnormal', hnone⟩)
        (Union.sameMembers_given (hsame.append (.refl hnone)))

theorem Ty.normal_of_composed (xs : List { t : Ty // t.Composed }) :
    ∀ x ∈ xs.map (·.val), x.Normal := by
  intro x hx
  obtain ⟨x, -, rfl⟩ := List.mem_map.1 hx
  exact x.property.built.normal

theorem Union.given_ne_nil_of_composed {xs : List { t : Ty // t.Composed }}
    (h : ∃ x ∈ xs, x.val.isUndefined = false) : given (xs.map (·.val)) ≠ [] := by
  obtain ⟨x, hx, hdefined⟩ := h
  refine given_ne_nil (fun x hx => ?_) ⟨x, List.mem_map_of_mem hx, hdefined⟩
  obtain ⟨x, -, rfl⟩ := List.mem_map.1 hx
  exact x.property

/-- Unions of the same types are alike, whatever their order, repetitions and weights. A union among
other types joins as its members do. What a function returns is the same in any order of its returns. -/
theorem Ty.alike_joins (xs ys : List { t : Ty // t.Composed }) (w w' w'' : Option (List Float)) :
    ((∀ x ∈ xs, ∃ y ∈ ys, x.val.alike y.val = true) →
        (∀ y ∈ ys, ∃ x ∈ xs, y.val.alike x.val = true) →
        (oneOf (xs.map (·.val)) w).alike (oneOf (ys.map (·.val)) w') = true) ∧
      ((∃ x ∈ xs, x.val.isUndefined = false) →
        (oneOf ([oneOf (xs.map (·.val)) w] ++ ys.map (·.val)) w').alike
          (oneOf (xs.map (·.val) ++ ys.map (·.val)) w'') = true) ∧
      ∀ (f : FunctionInfo) (frame : Frame), frame.returns.Perm (xs.map (·.val)) →
        (f.returnedType frame).alike
          (f.returnedType { frame with returns := xs.map (·.val) }) = true := by
  have hsame (x y : { t : Ty // t.Composed }) (h : x.val.alike y.val = true) : x.val.Same y.val :=
    ⟨x.property.built.normal, y.property.built.normal, h⟩
  have hxs := normal_of_composed xs
  have hys := normal_of_composed ys
  refine ⟨fun hforth hback => ?_, fun hdefined => ?_, fun f frame hperm => ?_⟩
  · have hmembers : SameMembers (xs.map (·.val)) (ys.map (·.val)) :=
      .map _ _ (fun x hx => (hforth x hx).imp fun y hy => ⟨hy.1, hsame x y hy.2⟩)
        fun y hy => (hback y hy).imp fun x hx => ⟨hx.1, (hsame y x hx.2).symm⟩
    exact alike_oneOf hxs hys (Union.sameMembers_given hmembers)
  · exact alike_oneOf (List.forall_mem_cons.2 ⟨normal_oneOf w hxs, hys⟩)
      (List.forall_mem_append.2 ⟨hxs, hys⟩)
      (sameMembers_given_oneOf (w := w) hxs hys (Union.given_ne_nil_of_composed hdefined))
  · exact f.alike_returnedType (fun t ht => hxs t (hperm.mem_iff.1 ht)) hperm

/-- Numbers and texts, joined in different ways. -/
theorem Ty.alike_joins_reordered :
    (oneOf [int, str]).alike (oneOf [str, int, str] (some [0.5, 0.25, 0.25])) = true ∧
      (oneOf ([oneOf [int, str]] ++ [str, int, str])).alike
        (oneOf ([int, str] ++ [str, int, str])) = true ∧
      (FunctionInfo.returnedType default { function := ⟨0⟩, returns := [str, int] }).alike
        (FunctionInfo.returnedType default { function := ⟨0⟩, returns := [int, str] }) = true := by
  let number : { t : Ty // t.Composed } := ⟨int, .leaf rfl⟩
  let text : { t : Ty // t.Composed } := ⟨str, .leaf rfl⟩
  have hnumber : number.val.alike number.val = true := alike_refl int
  have htext : text.val.alike text.val = true := alike_refl str
  have hforth : ∀ x ∈ [number, text], ∃ y ∈ [text, number, text], x.val.alike y.val = true :=
    List.forall_mem_cons.2 ⟨⟨number, by simp, hnumber⟩,
      List.forall_mem_singleton.2 ⟨text, by simp, htext⟩⟩
  have hback : ∀ y ∈ [text, number, text], ∃ x ∈ [number, text], y.val.alike x.val = true :=
    List.forall_mem_cons.2 ⟨⟨text, by simp, htext⟩, List.forall_mem_cons.2
      ⟨⟨number, by simp, hnumber⟩, List.forall_mem_singleton.2 ⟨text, by simp, htext⟩⟩⟩
  have hjoins := alike_joins [number, text] [text, number, text]
  exact ⟨(hjoins .none (some [0.5, 0.25, 0.25]) .none).1 hforth hback,
    (hjoins .none .none .none).2.1 ⟨number, List.mem_cons_self, rfl⟩,
    (hjoins .none .none .none).2.2 default { function := ⟨0⟩, returns := [str, int] }
      (List.Perm.swap int str [])⟩

namespace Arena

variable {a : Arena} {s t : Ty} {xs ys : List Ty}

theorem isSubtype_left_iff (h : s.parts ≠ []) :
    a.isSubtype s t = true ↔ ∃ p ∈ s.parts, a.isSubtype p t = true := by
  cases s with
  | union u =>
    rw [isSubtype_union_left]
    obtain ⟨p, hp⟩ := List.exists_mem_of_ne_nil _ h
    exact or_iff_right_of_imp fun ht => ⟨p, hp, isSubtype_of_isUnknown_right ht⟩
  | _ => simp [Ty.parts]

theorem isSubtype_right_iff_of_isUnion_eq_false (hs : s.isUnion = false) (h : t.parts ≠ []) :
    a.isSubtype s t = true ↔ ∃ p ∈ t.parts, a.isSubtype s p = true := by
  cases t with
  | union u =>
    rw [isSubtype_union_right hs]
    obtain ⟨p, hp⟩ := List.exists_mem_of_ne_nil _ h
    exact or_iff_right_of_imp fun hs => ⟨p, hp, isSubtype_of_isUnknown_left hs⟩
  | _ => simp [Ty.parts]

theorem isSubtype_right_iff (hs : s.Normal) (hne : s.parts ≠ []) (h : t.parts ≠ []) :
    a.isSubtype s t = true ↔ ∃ p ∈ t.parts, a.isSubtype s p = true := by
  have hright (q : Ty) (hq : q ∈ s.parts) :
      a.isSubtype q t = true ↔ ∃ p ∈ t.parts, a.isSubtype q p = true :=
    isSubtype_right_iff_of_isUnion_eq_false
      (Union.isUnion_of_mem_parts (fun u hu => (hu ▸ hs : (Ty.union u).Normal).of_union.flat) hq) h
  rw [isSubtype_left_iff hne]
  constructor
  · rintro ⟨q, hq, hqt⟩
    obtain ⟨p, hp, hqp⟩ := (hright q hq).1 hqt
    exact ⟨p, hp, (isSubtype_left_iff hne).2 ⟨q, hq, hqp⟩⟩
  · rintro ⟨p, hp, hsp⟩
    obtain ⟨q, hq, hqp⟩ := (isSubtype_left_iff hne).1 hsp
    exact ⟨q, hq, (hright q hq).2 ⟨p, hp, hqp⟩⟩

theorem exists_isSubtype_left (hsame : Ty.SameMembers xs ys) (ht : t.Normal)
    (h : ∃ x ∈ xs, a.isSubtype x t = true) : ∃ y ∈ ys, a.isSubtype y t = true := by
  obtain ⟨x, hx, hxt⟩ := h
  obtain ⟨y, hy, hxy⟩ := hsame.forth x hx
  exact ⟨y, hy, isSubtype_of_same hxy ht.same hxt⟩

theorem exists_isSubtype_right (hsame : Ty.SameMembers xs ys) (hs : s.Normal)
    (h : ∃ x ∈ xs, a.isSubtype s x = true) : ∃ y ∈ ys, a.isSubtype s y = true := by
  obtain ⟨x, hx, hsx⟩ := h
  obtain ⟨y, hy, hxy⟩ := hsame.forth x hx
  exact ⟨y, hy, isSubtype_of_same hs.same hxy hsx⟩

theorem exists_given_iff {p : Ty → Prop} (h : ∀ x ∈ xs, x.Normal)
    (hp : ∀ x ∈ xs, p x ↔ ∃ t ∈ x.parts, p t) :
    (∃ t ∈ Union.given xs, p t) ↔ ∃ x ∈ xs, x.isUndefined = false ∧ p x := by
  constructor
  · rintro ⟨t, ht, hpt⟩
    obtain ⟨x, hx, hdefined, htx⟩ := (Union.mem_given_of_normal h).1 ht
    exact ⟨x, hx, hdefined, (hp x hx).2 ⟨t, htx, hpt⟩⟩
  · rintro ⟨x, hx, hdefined, hpx⟩
    obtain ⟨t, ht, hpt⟩ := (hp x hx).1 hpx
    exact ⟨t, (Union.mem_given_of_normal h).2 ⟨x, hx, hdefined, ht⟩, hpt⟩

/-- A union stands for what a member of it stands for, and what stands for a member stands for it. -/
theorem isSubtype_oneOf (a : Arena) (t : { t : Ty // t.Composed }) (xs : List { t : Ty // t.Composed })
    (w : Option (List Float)) (hdefined : ∃ x ∈ xs, x.val.isUndefined = false) :
    (a.isSubtype (.oneOf (xs.map (·.val)) w) t.val = true ↔
        ∃ x ∈ xs, x.val.isUndefined = false ∧ a.isSubtype x.val t.val = true) ∧
      (a.isSubtype t.val (.oneOf (xs.map (·.val)) w) = true ↔
        ∃ x ∈ xs, x.val.isUndefined = false ∧ a.isSubtype t.val x.val = true) := by
  have hxs := Ty.normal_of_composed xs
  have ht := t.property.built.normal
  have hne := Union.given_ne_nil_of_composed hdefined
  have hsame := Ty.sameMembers_parts_oneOf (w := w) hxs hne
  have hparts : (Ty.oneOf (xs.map (·.val)) w).parts ≠ [] := fun hnil => hne (hsame.eq_nil hnil)
  have hmember {x : Ty} (hx : x ∈ xs.map (·.val)) : x.parts ≠ [] := by
    obtain ⟨x, -, rfl⟩ := List.mem_map.1 hx
    exact x.property.parts_ne
  have hleft := exists_given_iff (p := fun x => a.isSubtype x t.val = true) hxs fun x hx =>
    isSubtype_left_iff (hmember hx)
  have hright := exists_given_iff (p := fun x => a.isSubtype t.val x = true) hxs fun x hx =>
    isSubtype_right_iff ht t.property.parts_ne (hmember hx)
  simp only [List.mem_map, exists_exists_and_eq_and] at hleft hright
  rw [isSubtype_left_iff hparts, isSubtype_right_iff ht t.property.parts_ne hparts, ← hleft, ← hright]
  exact ⟨⟨exists_isSubtype_left hsame ht, exists_isSubtype_left hsame.symm ht⟩,
    ⟨exists_isSubtype_right hsame ht, exists_isSubtype_right hsame.symm ht⟩⟩

/-- Among numbers and texts some can stand for a float, and a truth value can stand for some. -/
theorem isSubtype_oneOf_number_text :
    isSubtype {} (.oneOf [.undefined, .int, .str]) .float = true ∧
      isSubtype {} .bool (.oneOf [.undefined, .int, .str]) = true := by
  let nothing : { t : Ty // t.Composed } := ⟨.undefined, .leaf rfl⟩
  let number : { t : Ty // t.Composed } := ⟨.int, .leaf rfl⟩
  let text : { t : Ty // t.Composed } := ⟨.str, .leaf rfl⟩
  have hnumber : number ∈ [nothing, number, text] := List.mem_cons_of_mem _ List.mem_cons_self
  have hdefined : ∃ x ∈ [nothing, number, text], x.val.isUndefined = false := ⟨number, hnumber, rfl⟩
  have hfloat : isSubtype {} .int .float = true := by
    rw [isSubtype]
    rfl
  have hbool : isSubtype {} .bool .int = true := by
    rw [isSubtype]
    rfl
  exact ⟨(isSubtype_oneOf {} ⟨.float, .leaf rfl⟩ _ .none hdefined).1.2 ⟨number, hnumber, rfl, hfloat⟩,
    (isSubtype_oneOf {} ⟨.bool, .leaf rfl⟩ _ .none hdefined).2.2 ⟨number, hnumber, rfl, hbool⟩⟩

end Arena

end Credence

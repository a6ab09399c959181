import Credence.Proofs.Likeness

namespace Credence

namespace Ty

/-- The types of a list without those that have one like them earlier in the list or among the types
seen before. -/
def firstsAfter (seen : List Ty) : List Ty → List Ty
  | [] => []
  | t :: ts =>
    if t.among seen then firstsAfter (seen ++ [t]) ts else t :: firstsAfter (seen ++ [t]) ts

/-- The types of a list, each where one like it occurs first. -/
def firsts (ts : List Ty) : List Ty :=
  firstsAfter [] ts

theorem among_filter {p : Ty → Bool} (hp : ∀ {a b : Ty}, a.alike b = true → p a = p b) {t : Ty}
    (ht : p t = true) (ts : List Ty) : t.among (ts.filter p) = t.among ts := by
  refine Bool.eq_iff_iff.2 ?_
  simp only [among, List.any_eq_true, List.mem_filter]
  constructor
  · rintro ⟨s, ⟨hs, -⟩, hst⟩
    exact ⟨s, hs, hst⟩
  · rintro ⟨s, hs, hst⟩
    exact ⟨s, ⟨hs, (hp hst).trans ht⟩, hst⟩

theorem filter_firstsAfter {p : Ty → Bool} (hp : ∀ {a b : Ty}, a.alike b = true → p a = p b)
    (seen ts : List Ty) :
    (firstsAfter seen ts).filter p = firstsAfter (seen.filter p) (ts.filter p) := by
  induction ts generalizing seen with
  | nil => rfl
  | cons t ts ih =>
    have hrest := ih (seen ++ [t])
    rw [List.filter_append, List.filter_singleton] at hrest
    cases ht : p t with
    | true =>
      rw [List.filter_cons_of_pos ht, firstsAfter, firstsAfter, among_filter hp ht]
      rw [ht] at hrest
      split
      · exact hrest
      · rw [List.filter_cons_of_pos ht]
        exact congrArg (t :: ·) hrest
    | false =>
      have hno : ¬ p t = true := Bool.eq_false_iff.1 ht
      rw [List.filter_cons_of_neg hno, firstsAfter]
      rw [ht, cond_false, List.append_nil] at hrest
      split
      · exact hrest
      · rw [List.filter_cons_of_neg hno]
        exact hrest

theorem isHashable_eq_false_iff {t : Ty} :
    t.isHashable = false ↔
      ∃ c, t = .container c ∧ (c.kind = .list ∨ c.kind = .set ∨ c.kind = .dict) := by
  constructor
  · intro h
    cases t with
    | container c =>
      refine ⟨c, rfl, ?_⟩
      cases hkind : c.kind with
      | list => exact .inl rfl
      | set => exact .inr (.inl rfl)
      | dict => exact .inr (.inr rfl)
      | tuple => simp [isHashable, hkind] at h
    | _ => cases h
  · rintro ⟨c, rfl, hkind⟩
    rcases hkind with hkind | hkind | hkind <;> simp [isHashable, hkind]

end Ty

namespace Union

/-- The entries stand for the types seen so far: each is one of them, and each of them is like one. -/
structure Stands (found : List (Ty × Float)) (seen : List Ty) : Prop where
  mem : ∀ t ∈ types found, t ∈ seen
  alike : ∀ s ∈ seen, ∃ t ∈ types found, t.alike s = true

theorem Stands.among {found : List (Ty × Float)} {seen : List Ty} (h : Stands found seen)
    (hseen : ∀ s ∈ seen, s.Normal) {t : Ty} (ht : t.Normal) :
    t.among (types found) = t.among seen := by
  refine Bool.eq_iff_iff.2 ⟨fun hfound => ?_, fun hin => ?_⟩
  · obtain ⟨k, hk, hkt⟩ := List.any_eq_true.1 hfound
    exact List.any_eq_true.2 ⟨k, h.mem k hk, hkt⟩
  · obtain ⟨s, hs, hst⟩ := List.any_eq_true.1 hin
    obtain ⟨k, hk, hks⟩ := h.alike s hs
    have hkt := (hseen k (h.mem k hk)).alike_trans (hseen s hs) ht hks hst
    exact List.any_eq_true.2 ⟨k, hk, hkt⟩

theorem Stands.merge {found : List (Ty × Float)} {seen : List Ty} (h : Stands found seen)
    (item : Ty × Float) : Stands (merge item found) (seen ++ [item.1]) := by
  constructor
  · intro t ht
    rw [types_merge] at ht
    split at ht
    · exact List.mem_append_left _ (h.mem t ht)
    · exact List.mem_append.2 ((List.mem_append.1 ht).imp_left (h.mem t))
  · intro s hs
    rw [types_merge]
    rcases List.mem_append.1 hs with hs | hs
    · obtain ⟨t, ht, hts⟩ := h.alike s hs
      refine ⟨t, ?_, hts⟩
      split
      · exact ht
      · exact List.mem_append_left _ ht
    · rw [List.mem_singleton.1 hs]
      split
      · rename_i hamong
        exact List.any_eq_true.1 hamong
      · exact ⟨item.1, by simp, Ty.alike_refl _⟩

theorem types_foldl_merge {items found : List (Ty × Float)} {seen : List Ty}
    (h : Stands found seen) (hseen : ∀ s ∈ seen, s.Normal) (hitems : ∀ t ∈ types items, t.Normal) :
    types (items.foldl (fun entries item => merge item entries) found) =
      types found ++ Ty.firstsAfter seen (types items) := by
  induction items generalizing found seen with
  | nil => exact (List.append_nil _).symm
  | cons item items ih =>
    obtain ⟨hitem, hitems⟩ := List.forall_mem_cons.1 hitems
    have hseen' : ∀ s ∈ seen ++ [item.1], s.Normal := by
      intro s hs
      rcases List.mem_append.1 hs with hs | hs
      · exact hseen s hs
      · exact List.mem_singleton.1 hs ▸ hitem
    have hfirsts : Ty.firstsAfter seen (types (item :: items)) =
        if item.1.among seen then Ty.firstsAfter (seen ++ [item.1]) (types items)
        else item.1 :: Ty.firstsAfter (seen ++ [item.1]) (types items) := rfl
    rw [List.foldl_cons, ih (h.merge item) hseen' hitems, types_merge, h.among hseen hitem, hfirsts]
    split
    · rfl
    · exact List.append_assoc _ _ _

theorem types_mergeAll {items : List (Ty × Float)} (h : ∀ t ∈ types items, t.Normal) :
    types (mergeAll items) = Ty.firsts (types items) := by
  refine types_foldl_merge ⟨?_, ?_⟩ ?_ h
  · exact fun _ ht => absurd ht List.not_mem_nil
  · exact fun _ hs => absurd hs List.not_mem_nil
  · exact fun _ hs => absurd hs List.not_mem_nil

/-- The types that are listed by the given ones, without undefined ones. -/
def given (elts : List Ty) : List Ty :=
  (elts.flatMap Ty.parts).filter fun t => !t.isUndefined

theorem types_mergeAll_filter {elts : List Ty} (weights? : Option (List Float))
    (h : ∀ t ∈ elts, t.Normal) {p : Ty → Bool}
    (hp : ∀ {a b : Ty}, a.alike b = true → p a = p b) :
    types (mergeAll ((flatItems elts weights?).filter fun item => p item.1)) =
      (Ty.firsts (given elts)).filter p := by
  have hprobs (u : Union Ty) (hu : Ty.union u ∈ elts) := (h _ hu).of_union.probs
  have htypes : types ((flatItems elts weights?).filter fun item => p item.1) =
      (given elts).filter p := by
    rw [types_filter, types_flatItems weights? hprobs, given]
  have hnormal : ∀ t ∈ (given elts).filter p, t.Normal := by
    intro t ht
    obtain ⟨s, hs, hst⟩ := List.mem_flatMap.1 (List.mem_filter.1 (List.mem_filter.1 ht).1).1
    exact (h s hs).of_mem_parts hst
  rw [types_mergeAll (htypes ▸ hnormal), htypes]
  exact (Ty.filter_firstsAfter hp [] (given elts)).symm

/-- The normal form of a union of types that are built by the operations on types: the flat types
without undefined ones, each where one like it occurs first, those that can be hashed before the
others. No alternative is undefined, a union, or like another one, each has a probability, and the
alternatives are those of the union of themselves. -/
theorem elts_ofList_of_built (elts : List { t : Ty // t.Built })
    (weights? : Option (List Float)) :
    let u := ofList (elts.map (·.val)) weights?
    let found := Ty.firsts (given (elts.map (·.val)))
    u.elts = found.filter (·.isHashable) ++ found.filter (!·.isHashable) ∧
      (∀ t ∈ u.elts, t.isUndefined = false ∧ t.isUnion = false) ∧
      (u.elts.Pairwise fun a b => a.alike b = false ∧ b.alike a = false) ∧
      u.probs.length = u.elts.length ∧
      ∀ weights?, (ofList u.elts weights?).elts = u.elts := by
  have hbuilt : ∀ t ∈ elts.map (·.val), t.Normal := by
    intro t ht
    obtain ⟨b, -, rfl⟩ := List.mem_map.1 ht
    exact b.property.normal
  have hnormal := (Ty.normal_union weights? hbuilt)
  have hu := hnormal.of_union
  refine ⟨?_, fun t ht => ⟨hu.isUndefined t ht, hu.isUnion t ht⟩, ?_, hu.probs, hu.elts_ofList⟩
  · have hyes := types_mergeAll_filter weights? hbuilt Ty.isHashable_of_alike
    have hno := types_mergeAll_filter weights? hbuilt (p := fun t => !t.isHashable) fun h =>
      congrArg _ (Ty.isHashable_of_alike h)
    rw [Union.elts_ofList, hyes, hno]
  · refine hu.distinct.imp_of_mem fun ha hb hab => ⟨hab, Bool.eq_false_iff.2 fun hba => ?_⟩
    have ha := hnormal.of_mem_parts (s := .union _) ha
    have hb := hnormal.of_mem_parts (s := .union _) hb
    rw [hb.alike_symm ha hba] at hab
    cases hab

end Union

end Credence

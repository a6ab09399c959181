import Credence.Proofs.Access
import Credence.Proofs.Ancestry
import Credence.Proofs.Subtype

namespace Credence.Arena

variable {a b c : Arena} {s t : Ty}

/-- Classes have the same names and bases, and objects are of the same classes. -/
structure Kin (a b : Arena) : Prop where
  bases : ∀ id, (b.classAt id).bases = (a.classAt id).bases
  name : ∀ id, (b.classAt id).name = (a.classAt id).name
  classOf : ∀ id, b.classOf id = a.classOf id

section Parts

variable {c d : Container Ty} {u : Union Ty} {xs ys : List Ty}

theorem isSubtype_union_left_congr (h : ∀ x ∈ u.elts, b.isSubtype x t = a.isSubtype x t) :
    b.isSubtype (.union u) t = a.isSubtype (.union u) t := by
  rw [Bool.eq_iff_iff, isSubtype_union_left, isSubtype_union_left]
  apply or_congr_right
  apply exists_congr
  intro x
  apply and_congr_right
  intro hx
  rw [h x hx]

theorem isSubtype_union_right_congr (hs : s.isUnion = false)
    (h : ∀ y ∈ u.elts, b.isSubtype s y = a.isSubtype s y) :
    b.isSubtype s (.union u) = a.isSubtype s (.union u) := by
  rw [Bool.eq_iff_iff, isSubtype_union_right hs, isSubtype_union_right hs]
  apply or_congr_right
  apply exists_congr
  intro y
  apply and_congr_right
  intro hy
  rw [h y hy]

theorem contained_congr (h : ∀ x ∈ xs, ∀ y ∈ ys, b.isSubtype x y = a.isSubtype x y) :
    b.Contained xs ys ↔ a.Contained xs ys := by
  apply or_congr_right
  apply or_congr_right
  apply forall₂_congr
  intro x hx
  apply exists_congr
  intro y
  apply and_congr_right
  intro hy
  rw [h x hx y hy]

theorem isSubtype_container_congr (helts : ∀ x ∈ c.elts, ∀ y ∈ d.elts, b.isSubtype x y = a.isSubtype x y)
    (hvalues : ∀ x ∈ c.values, ∀ y ∈ d.values, b.isSubtype x y = a.isSubtype x y) :
    b.isSubtype (.container c) (.container d) = a.isSubtype (.container c) (.container d) := by
  rw [Bool.eq_iff_iff]
  cases hk : c.kind with
  | tuple =>
    have hall : List.Forall₂ (fun x y => b.isSubtype x y = true) c.elts d.elts ↔
        List.Forall₂ (fun x y => a.isSubtype x y = true) c.elts d.elts := by
      rw [List.forall₂_iff_zip, List.forall₂_iff_zip]
      apply and_congr_right
      intro _
      apply forall₂_congr
      intro x y
      apply imp_congr_right
      intro hxy
      obtain ⟨hx, hy⟩ := List.of_mem_zip hxy
      rw [helts x hx y hy]
    rw [isSubtype_tuple hk, isSubtype_tuple hk, hall]
  | list => rw [isSubtype_bag (.inl hk), isSubtype_bag (.inl hk), contained_congr helts]
  | set => rw [isSubtype_bag (.inr hk), isSubtype_bag (.inr hk), contained_congr helts]
  | dict => rw [isSubtype_dict hk, isSubtype_dict hk, contained_congr helts, contained_congr hvalues]

end Parts

namespace Kin

theorem refl (a : Arena) : a.Kin a :=
  ⟨fun _ => rfl, fun _ => rfl, fun _ => rfl⟩

theorem trans (h : a.Kin b) (k : b.Kin c) : a.Kin c where
  bases id := (k.bases id).trans (h.bases id)
  name id := (k.name id).trans (h.name id)
  classOf id := (k.classOf id).trans (h.classOf id)

variable (h : a.Kin b)
include h

theorem isSubclass_eq (c d : ClassId) : b.isSubclass c d = a.isSubclass c d := by
  have hname (id : ClassId) : b.className id = a.className id := by rw [className, h.name, className]
  have hderives : b.Derives = a.Derives := by
    funext c d
    simp only [Derives, h.bases]
  rw [Bool.eq_iff_iff, isSubclass_iff, isSubclass_iff]
  simp only [hname, hderives]

theorem isSubtype_leaf_eq (hs : s.isLeaf = true) (ht : t.isLeaf = true) :
    b.isSubtype s t = a.isSubtype s t := by
  unfold isSubtype
  cases s with
  | container | union => cases hs
  | _ =>
    cases t with
    | container | union => cases ht
    | _ => simp only [h.classOf, h.isSubclass_eq]

theorem isSubtype_eq (s t : Ty) : b.isSubtype s t = a.isSubtype s t := by
  -- By induction on the size of the types.
  induction hn : sizeOf s + sizeOf t using Nat.strongRecOn generalizing s t with
  | _ n ih =>
    subst hn
    have hright (v : Union Ty) (hs : s.isUnion = false) (hsize : ∀ y ∈ v.elts, sizeOf y < sizeOf t) :
        b.isSubtype s (.union v) = a.isSubtype s (.union v) := by
      apply isSubtype_union_right_congr hs
      intro y hy
      have := hsize y hy
      exact ih _ (by omega) s y rfl
    rcases Ty.kinds s with ⟨u, rfl⟩ | ⟨c, rfl⟩ | hs
    · apply isSubtype_union_left_congr
      intro x hx
      have := Ty.sizeOf_lt_of_mem_union hx
      exact ih _ (by omega) x t rfl
    all_goals rcases Ty.kinds t with ⟨v, rfl⟩ | ⟨d, rfl⟩ | ht
    · exact hright v rfl fun _ => Ty.sizeOf_lt_of_mem_union
    · apply isSubtype_container_congr
      · intro x hx y hy
        have := Ty.sizeOf_lt_of_mem_elts hx
        have := Ty.sizeOf_lt_of_mem_elts hy
        exact ih _ (by omega) x y rfl
      · intro x hx y hy
        have := Ty.sizeOf_lt_of_mem_values hx
        have := Ty.sizeOf_lt_of_mem_values hy
        exact ih _ (by omega) x y rfl
    · rw [isSubtype_container_leaf ht, isSubtype_container_leaf ht]
    · exact hright v (Ty.isUnion_leaf hs) fun _ => Ty.sizeOf_lt_of_mem_union
    · rw [isSubtype_leaf_container hs, isSubtype_leaf_container hs]
    · exact h.isSubtype_leaf_eq hs ht

end Kin

theorem kin_modifyClass (a : Arena) (id : ClassId) {f : ClassInfo → ClassInfo}
    (hbases : ∀ c, (f c).bases = c.bases) (hname : ∀ c, (f c).name = c.name) :
    a.Kin (a.modifyClass id f) where
  bases c := by
    rw [classAt_modifyClass_eq]
    split
    · exact hbases _
    · rfl
  name c := by
    rw [classAt_modifyClass_eq]
    split
    · exact hname _
    · rfl
  classOf _ := rfl

theorem kin_putMember (a : Arena) (id : ClassId) (name : String) (slot : Slot) :
    a.Kin (a.putMember id name slot) := by
  apply kin_modifyClass
  · exact fun _ => rfl
  · exact fun _ => rfl

theorem kin_putOverlay (a : Arena) (id : ObjectId) (name : String) (t : Ty) :
    a.Kin (a.putOverlay id name t) where
  bases _ := rfl
  name _ := rfl
  classOf o := by
    rw [putOverlay, Arena.classOf, objectAt_modifyObject_eq]
    split <;> rfl

/-- What a class keeps of its bases makes no difference. -/
theorem kin_keepInherited (a : Arena) (id : ClassId) (merged : Table Slot) :
    a.Kin (a.keepInherited id merged) where
  bases := a.bases_keepInherited id merged
  name c := by
    rw [classAt_keepInherited]
    split <;> rfl
  classOf _ := rfl

theorem merging_kin (a : Arena) : Merging a.Kin fun _ _ _ => True :=
  merging_of_keep fun b id merged h => h.trans (b.kin_keepInherited id merged)

theorem kin_classLookup (a : Arena) (id : ClassId) (name : String) : a.Kin (a.classLookup id name).2 :=
  (merging_kin a).classLookup (.refl a) id name

theorem kin_objectLookup (a : Arena) (id : ObjectId) (name : String) : a.Kin (a.objectLookup id name).2 :=
  (merging_kin a).objectLookup (.refl a) id name

end Credence.Arena

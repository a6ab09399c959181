import Credence.Arena.Subtype
import Credence.Proofs.Members

namespace Credence.Arena

variable {a : Arena}

section Kinds

variable {c d : Container Ty} {u : Union Ty} {s t : Ty}

theorem isSubtype_of_isUnknown_left (h : s.isUnknown = true) : a.isSubtype s t = true := by
  unfold isSubtype
  rw [h, Bool.true_or, Bool.true_or]

theorem isSubtype_of_isUnknown_right (h : t.isUnknown = true) : a.isSubtype s t = true := by
  unfold isSubtype
  rw [h, Bool.or_true, Bool.true_or]

example : isSubtype {} (.prim .str) .any = true := by cbv

theorem isSubtype_union_left :
    a.isSubtype (.union u) t = true ↔
      t.isUnknown = true ∨ ∃ s ∈ u.elts, a.isSubtype s t = true := by
  rw [isSubtype]
  simp [Ty.isUnknown]

theorem isSubtype_union_right (hs : s.isUnion = false) :
    a.isSubtype s (.union u) = true ↔
      s.isUnknown = true ∨ ∃ t ∈ u.elts, a.isSubtype s t = true := by
  rw [isSubtype]
  · simp [Ty.isUnknown]
  · rintro v rfl
    cases hs

/-- The members of one list stand for members of the other, if there are any in both. -/
def Contained (a : Arena) (xs ys : List Ty) : Prop :=
  xs = [] ∨ ys = [] ∨ ∀ x ∈ xs, ∃ y ∈ ys, a.isSubtype x y = true

theorem isSubtype_tuple (hc : c.kind = .tuple) :
    a.isSubtype (.container c) (.container d) = true ↔
      c.kind = d.kind ∧
        (c.elts = [] ∨ d.elts = [] ∨
          List.Forall₂ (fun x y => a.isSubtype x y = true) c.elts d.elts) := by
  rw [List.forall₂_iff_zip, isSubtype]
  simp [Ty.isUnknown, hc, or_assoc]

theorem isSubtype_bag (hc : c.kind = .list ∨ c.kind = .set) :
    a.isSubtype (.container c) (.container d) = true ↔
      c.kind = d.kind ∧ a.Contained c.elts d.elts := by
  rw [isSubtype]
  rcases hc with hc | hc <;> simp [Ty.isUnknown, hc, Contained, or_assoc]

theorem isSubtype_dict (hc : c.kind = .dict) :
    a.isSubtype (.container c) (.container d) = true ↔
      c.kind = d.kind ∧ a.Contained c.elts d.elts ∧ a.Contained c.values d.values := by
  rw [isSubtype]
  simp [Ty.isUnknown, hc, Contained, or_assoc]

theorem kind_of_isSubtype (h : a.isSubtype (.container c) (.container d) = true) :
    c.kind = d.kind := by
  cases hc : c.kind with
  | tuple => exact hc ▸ ((isSubtype_tuple hc).1 h).1
  | list => exact hc ▸ ((isSubtype_bag (.inl hc)).1 h).1
  | set => exact hc ▸ ((isSubtype_bag (.inr hc)).1 h).1
  | dict => exact hc ▸ ((isSubtype_dict hc).1 h).1

theorem isSubtype_leaf_container (hs : s.isLeaf = true) :
    a.isSubtype s (.container c) = s.isUnknown := by
  unfold isSubtype
  cases s with
  | container | union => cases hs
  | _ => rfl

theorem isSubtype_container_leaf (ht : t.isLeaf = true) :
    a.isSubtype (.container c) t = t.isUnknown := by
  unfold isSubtype
  cases t with
  | container | union => cases ht
  | _ => rfl

theorem isSubtype_builtin_left {f g : Builtin Ty} (ht : t.isLeaf = true) :
    a.isSubtype (.builtin f) t = a.isSubtype (.builtin g) t := by
  unfold isSubtype
  cases t with
  | container | union => cases ht
  | _ => rfl

theorem isSubtype_builtin_right {f g : Builtin Ty} (hs : s.isLeaf = true) :
    a.isSubtype s (.builtin f) = a.isSubtype s (.builtin g) := by
  unfold isSubtype
  cases s with
  | container | union => cases hs
  | _ => rfl

theorem isSubtype_leaf_eq {s' t' : Ty} (hs : s.isLeaf = true) (ht : t.isLeaf = true)
    (hss : s.Same s') (htt : t.Same t') : a.isSubtype s t = a.isSubtype s' t' := by
  have hs' : s'.isLeaf = true := hss.isLeaf_eq ▸ hs
  calc a.isSubtype s t = a.isSubtype s' t := by
        obtain rfl | ⟨f, g, rfl, rfl, -⟩ := (Ty.alike_leaf hs).1 hss.alike
        · rfl
        · exact isSubtype_builtin_left ht
    _ = a.isSubtype s' t' := by
        obtain rfl | ⟨f, g, rfl, rfl, -⟩ := (Ty.alike_leaf ht).1 htt.alike
        · rfl
        · exact isSubtype_builtin_right hs'

end Kinds

section Replace

/-- Types that are smaller than a size together can be replaced by types that are the same. -/
def Replaceable (a : Arena) (n : Nat) : Prop :=
  ∀ {s s' t t' : Ty}, s.Same s' → t.Same t' → sizeOf s + sizeOf t < n →
    a.isSubtype s t = true → a.isSubtype s' t' = true

variable {n : Nat} {c c' d d' : Container Ty} {u u' : Union Ty} {s s' t t' : Ty}
  {xs xs' ys ys' : List Ty} (ih : a.Replaceable n)
include ih

theorem Contained.replace (h : a.Contained xs ys) (hxx : Ty.SameMembers xs xs')
    (hyy : Ty.SameMembers ys ys') (hsize : ∀ x ∈ xs, ∀ y ∈ ys, sizeOf x + sizeOf y < n) :
    a.Contained xs' ys' := by
  refine h.imp hxx.eq_nil (Or.imp hyy.eq_nil fun hall => ?_)
  intro x' hx'
  obtain ⟨x, hx, hsame⟩ := hxx.back x' hx'
  obtain ⟨y, hy, hxy⟩ := hall x hx
  obtain ⟨y', hy', hsame'⟩ := hyy.forth y hy
  exact ⟨y', hy', ih hsame hsame' (hsize x hx y hy) hxy⟩

theorem forall₂_replace (h : List.Forall₂ (fun x y => a.isSubtype x y = true) xs ys)
    (hxx : List.Forall₂ Ty.Same xs xs') (hyy : List.Forall₂ Ty.Same ys ys')
    (hsize : ∀ x ∈ xs, ∀ y ∈ ys, sizeOf x + sizeOf y < n) :
    List.Forall₂ (fun x y => a.isSubtype x y = true) xs' ys' := by
  induction h generalizing xs' ys' with
  | nil =>
    cases hxx
    cases hyy
    exact .nil
  | cons hxy _ ihrest =>
    cases hxx with
    | cons hsame hxx =>
    cases hyy with
    | cons hsame' hyy =>
    obtain ⟨hfirst, hrest⟩ := List.forall_mem_cons.1 hsize
    refine .cons (ih hsame hsame' (hfirst _ List.mem_cons_self) hxy) ?_
    exact ihrest hxx hyy fun x hx y hy => hrest x hx y (List.mem_cons_of_mem _ hy)

theorem isSubtype_container_replace (hcc : (Ty.container c).Same (.container c'))
    (hdd : (Ty.container d).Same (.container d'))
    (hsize : sizeOf (Ty.container c) + sizeOf (Ty.container d) < n + 1)
    (h : a.isSubtype (.container c) (.container d) = true) :
    a.isSubtype (.container c') (.container d') = true := by
  have hkind := kind_of_isSubtype h
  have hkind' : c.kind = c'.kind := Ty.kind_of_alike hcc.alike
  have hkinds : c'.kind = d'.kind := by
    rw [← hkind', hkind, Ty.kind_of_alike hdd.alike]
  have helts : ∀ x ∈ c.elts, ∀ y ∈ d.elts, sizeOf x + sizeOf y < n := by
    intro x hx y hy
    have := Ty.sizeOf_lt_of_mem_elts hx
    have := Ty.sizeOf_lt_of_mem_elts hy
    omega
  have hvalues : ∀ x ∈ c.values, ∀ y ∈ d.values, sizeOf x + sizeOf y < n := by
    intro x hx y hy
    have := Ty.sizeOf_lt_of_mem_values hx
    have := Ty.sizeOf_lt_of_mem_values hy
    omega
  have hbag (hk : c.kind = .list ∨ c.kind = .set) :
      a.isSubtype (.container c') (.container d') = true := by
    have helts' := ((isSubtype_bag hk).1 h).2.replace ih (hcc.sameMembers_bag hk)
      (hdd.sameMembers_bag (hkind ▸ hk)) helts
    exact (isSubtype_bag (hkind' ▸ hk)).2 ⟨hkinds, helts'⟩
  cases hk : c.kind with
  | list => exact hbag (.inl hk)
  | set => exact hbag (.inr hk)
  | tuple =>
    refine (isSubtype_tuple (hkind' ▸ hk)).2 ⟨hkinds, ?_⟩
    have hcc := hcc.forall₂_tuple hk
    have hdd := hdd.forall₂_tuple (hkind ▸ hk)
    rcases ((isSubtype_tuple hk).1 h).2 with hnil | hnil | hall
    · exact .inl (List.forall₂_nil_left_iff.1 (hnil ▸ hcc))
    · exact .inr (.inl (List.forall₂_nil_left_iff.1 (hnil ▸ hdd)))
    · exact .inr (.inr (forall₂_replace ih hall hcc hdd helts))
  | dict =>
    obtain ⟨hkeys, hvals⟩ := ((isSubtype_dict hk).1 h).2
    obtain ⟨hcelts, hcvalues⟩ := hcc.sameMembers_dict hk
    obtain ⟨hdelts, hdvalues⟩ := hdd.sameMembers_dict (hkind ▸ hk)
    exact (isSubtype_dict (hkind' ▸ hk)).2 ⟨hkinds, hkeys.replace ih hcelts hdelts helts,
      hvals.replace ih hcvalues hdvalues hvalues⟩

theorem isSubtype_union_replace_left (huu : (Ty.union u).Same (.union u')) (htt : t.Same t')
    (hsize : sizeOf (Ty.union u) + sizeOf t < n + 1) (h : a.isSubtype (.union u) t = true) :
    a.isSubtype (.union u') t' = true := by
  refine isSubtype_union_left.2 ((isSubtype_union_left.1 h).imp (htt.isUnknown_eq ▸ ·) ?_)
  rintro ⟨x, hx, hxt⟩
  obtain ⟨x', hx', hsame⟩ := huu.sameMembers_union.forth x hx
  have := Ty.sizeOf_lt_of_mem_union hx
  exact ⟨x', hx', ih hsame htt (by omega) hxt⟩

theorem isSubtype_union_replace_right (hs : s.isUnion = false) (hss : s.Same s')
    (huu : (Ty.union u).Same (.union u')) (hsize : sizeOf s + sizeOf (Ty.union u) < n + 1)
    (h : a.isSubtype s (.union u) = true) : a.isSubtype s' (.union u') = true := by
  have hs' : s'.isUnion = false := hss.isUnion_eq ▸ hs
  refine (isSubtype_union_right hs').2 (((isSubtype_union_right hs).1 h).imp (hss.isUnknown_eq ▸ ·) ?_)
  rintro ⟨x, hx, hsx⟩
  obtain ⟨x', hx', hsame⟩ := huu.sameMembers_union.forth x hx
  have := Ty.sizeOf_lt_of_mem_union hx
  exact ⟨x', hx', ih hss hsame (by omega) hsx⟩

end Replace

theorem replaceable (a : Arena) (n : Nat) : a.Replaceable n := by
  induction n with
  | zero => exact fun _ _ hsize => absurd hsize (Nat.not_lt_zero _)
  | succ n ih =>
    intro s s' t t' hss htt hsize h
    rcases Ty.kinds s with ⟨u, rfl⟩ | ⟨c, rfl⟩ | hs
    · obtain ⟨u', rfl⟩ := Ty.exists_of_alike_union hss.alike
      exact isSubtype_union_replace_left ih hss htt hsize h
    all_goals rcases Ty.kinds t with ⟨v, rfl⟩ | ⟨d, rfl⟩ | ht
    · obtain ⟨v', rfl⟩ := Ty.exists_of_alike_union htt.alike
      exact isSubtype_union_replace_right ih rfl hss htt hsize h
    · obtain ⟨c', rfl⟩ := Ty.exists_of_alike_container hss.alike
      obtain ⟨d', rfl⟩ := Ty.exists_of_alike_container htt.alike
      exact isSubtype_container_replace ih hss htt hsize h
    · rw [isSubtype_container_leaf ht] at h
      exact isSubtype_of_isUnknown_right (htt.isUnknown_eq ▸ h)
    · obtain ⟨v', rfl⟩ := Ty.exists_of_alike_union htt.alike
      exact isSubtype_union_replace_right ih (Ty.isUnion_leaf hs) hss htt hsize h
    · rw [isSubtype_leaf_container hs] at h
      exact isSubtype_of_isUnknown_left (hss.isUnknown_eq ▸ h)
    · exact isSubtype_leaf_eq hs ht hss htt ▸ h

theorem isSubtype_of_same {s s' t t' : Ty} (hss : s.Same s') (htt : t.Same t')
    (h : a.isSubtype s t = true) : a.isSubtype s' t' = true :=
  a.replaceable (sizeOf s + sizeOf t + 1) hss htt (Nat.lt_succ_self _) h

/-- Whether a type stands for another one is all the same for types that are like them. -/
theorem isSubtype_eq_of_alike (a : Arena) (s s' t t' : { t : Ty // t.Built })
    (hs : s.val.alike s'.val = true) (ht : t.val.alike t'.val = true) :
    a.isSubtype s.val t.val = a.isSubtype s'.val t'.val := by
  have hss : s.val.Same s'.val := ⟨s.property.normal, s'.property.normal, hs⟩
  have htt : t.val.Same t'.val := ⟨t.property.normal, t'.property.normal, ht⟩
  exact Bool.eq_iff_iff.2 ⟨isSubtype_of_same hss htt, isSubtype_of_same hss.symm htt.symm⟩

/-- Lists that are given the same elements in another order. -/
theorem isSubtype_eq_reordered :
    (Ty.listOf [.int, .str]).alike (.listOf [.str, .int]) = true ∧
      (Ty.listOf [.str, .float]).alike (.listOf [.float, .str]) = true ∧
      isSubtype {} (.listOf [.int, .str]) (.listOf [.str, .float]) =
        isSubtype {} (.listOf [.str, .int]) (.listOf [.float, .str]) := by
  have hbuilt (p q : Prim) : (Ty.listOf [.prim p, .prim q]).Built :=
    .ofElts .list (List.forall_mem_cons.2 ⟨.leaf rfl, List.forall_mem_singleton.2 (.leaf rfl)⟩)
  have hs : (Ty.listOf [.int, .str]).alike (.listOf [.str, .int]) = true := by
    simp [Ty.listOf, Container.ofElts, Container.push, Container.pushWith, Ty.isUndefined, Ty.among,
      Ty.alike]
  have ht : (Ty.listOf [.str, .float]).alike (.listOf [.float, .str]) = true := by
    simp [Ty.listOf, Container.ofElts, Container.push, Container.pushWith, Ty.isUndefined, Ty.among,
      Ty.alike]
  exact ⟨hs, ht, isSubtype_eq_of_alike {} ⟨_, hbuilt .int .str⟩ ⟨_, hbuilt .str .int⟩
    ⟨_, hbuilt .str .float⟩ ⟨_, hbuilt .float .str⟩ hs ht⟩

end Credence.Arena

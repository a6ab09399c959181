import Credence.Proofs.Likeness

namespace Credence.Ty

/-- Types in normal form that are alike. -/
structure Same (s t : Ty) : Prop where
  left : s.Normal
  right : t.Normal
  alike : s.alike t = true

/-- Each type of one list is the same as a type of the other. -/
structure SameMembers (xs ys : List Ty) : Prop where
  forth : ∀ x ∈ xs, ∃ y ∈ ys, x.Same y
  back : ∀ y ∈ ys, ∃ x ∈ xs, x.Same y

variable {s t r : Ty} {xs ys zs : List Ty}

theorem kinds (t : Ty) :
    (∃ u, t = .union u) ∨ (∃ c, t = .container c) ∨ t.isLeaf = true := by
  cases t with
  | union u => exact .inl ⟨u, rfl⟩
  | container c => exact .inr (.inl ⟨c, rfl⟩)
  | _ => exact .inr (.inr rfl)

theorem isUnion_leaf (h : t.isLeaf = true) : t.isUnion = false := by
  cases t with
  | union => cases h
  | _ => rfl

theorem Normal.same (h : s.Normal) : s.Same s :=
  ⟨h, h, alike_refl s⟩

namespace Same

theorem symm (h : s.Same t) : t.Same s :=
  ⟨h.right, h.left, h.left.alike_symm h.right h.alike⟩

theorem trans (h : s.Same t) (h' : t.Same r) : s.Same r :=
  ⟨h.left, h'.right, h.left.alike_trans h.right h'.right h.alike h'.alike⟩

theorem isUnion_eq (h : s.Same t) : s.isUnion = t.isUnion := by
  have h := h.alike
  unfold Ty.alike at h
  split at h
  any_goals rfl
  cases h

theorem isLeaf_eq (h : s.Same t) : s.isLeaf = t.isLeaf := by
  have h := h.alike
  unfold Ty.alike at h
  split at h
  any_goals rfl
  cases h

theorem isUnknown_eq (h : s.Same t) : s.isUnknown = t.isUnknown := by
  have h := h.alike
  unfold Ty.alike at h
  split at h
  any_goals rfl
  cases h

end Same

namespace SameMembers

theorem symm (h : SameMembers xs ys) : SameMembers ys xs := by
  refine ⟨fun y hy => ?_, fun x hx => ?_⟩
  · obtain ⟨x, hx, hsame⟩ := h.back y hy
    exact ⟨x, hx, hsame.symm⟩
  · obtain ⟨y, hy, hsame⟩ := h.forth x hx
    exact ⟨y, hy, hsame.symm⟩

theorem trans (hxy : SameMembers xs ys) (hyz : SameMembers ys zs) : SameMembers xs zs := by
  constructor
  · intro x hx
    obtain ⟨y, hy, h⟩ := hxy.forth x hx
    obtain ⟨z, hz, h'⟩ := hyz.forth y hy
    exact ⟨z, hz, h.trans h'⟩
  · intro z hz
    obtain ⟨y, hy, h'⟩ := hyz.back z hz
    obtain ⟨x, hx, h⟩ := hxy.back y hy
    exact ⟨x, hx, h.trans h'⟩

theorem eq_nil (h : SameMembers xs ys) (hxs : xs = []) : ys = [] := by
  refine List.eq_nil_iff_forall_not_mem.2 fun y hy => ?_
  obtain ⟨x, hx, -⟩ := h.back y hy
  exact List.not_mem_nil (hxs ▸ hx)

theorem append {xs' ys' : List Ty} (h : SameMembers xs ys) (h' : SameMembers xs' ys') :
    SameMembers (xs ++ xs') (ys ++ ys') := by
  constructor
  · intro x hx
    rcases List.mem_append.1 hx with hx | hx
    · exact (h.forth x hx).imp fun y hy => ⟨List.mem_append_left _ hy.1, hy.2⟩
    · exact (h'.forth x hx).imp fun y hy => ⟨List.mem_append_right _ hy.1, hy.2⟩
  · intro y hy
    rcases List.mem_append.1 hy with hy | hy
    · exact (h.back y hy).imp fun x hx => ⟨List.mem_append_left _ hx.1, hx.2⟩
    · exact (h'.back y hy).imp fun x hx => ⟨List.mem_append_right _ hx.1, hx.2⟩

theorem of_perm (h : ∀ x ∈ xs, x.Normal) (hperm : xs.Perm ys) : SameMembers xs ys := by
  refine ⟨fun x hx => ?_, fun y hy => ?_⟩
  · exact ⟨x, hperm.mem_iff.1 hx, (h x hx).same⟩
  · have hy := hperm.mem_iff.2 hy
    exact ⟨y, hy, (h y hy).same⟩

theorem refl (h : ∀ x ∈ xs, x.Normal) : SameMembers xs xs :=
  of_perm h (.refl xs)

theorem map {α β : Type} {ps : List α} {qs : List β} (f : α → Ty) (g : β → Ty)
    (forth : ∀ p ∈ ps, ∃ q ∈ qs, (f p).Same (g q)) (back : ∀ q ∈ qs, ∃ p ∈ ps, (f p).Same (g q)) :
    SameMembers (ps.map f) (qs.map g) := by
  constructor
  · intro x hx
    obtain ⟨p, hp, rfl⟩ := List.mem_map.1 hx
    obtain ⟨q, hq, hpq⟩ := forth p hp
    exact ⟨g q, List.mem_map_of_mem hq, hpq⟩
  · intro y hy
    obtain ⟨q, hq, rfl⟩ := List.mem_map.1 hy
    obtain ⟨p, hp, hpq⟩ := back q hq
    exact ⟨f p, List.mem_map_of_mem hp, hpq⟩

theorem length_le (h : SameMembers xs ys) (hdistinct : Distinct xs) : xs.length ≤ ys.length := by
  refine length_le_of_covered (r := Same) ?_ ?_ h.forth
  · exact fun x _ x' _ y _ hxy hxy' => hxy.trans hxy'.symm
  · exact hdistinct.imp fun hxy hboth => by simp [hboth.1.alike] at hxy

theorem length_eq (h : SameMembers xs ys) (hx : Distinct xs) (hy : Distinct ys) :
    xs.length = ys.length :=
  Nat.le_antisymm (h.length_le hx) (h.symm.length_le hy)

end SameMembers

section Parts

variable {c d : Container Ty} {u v : Union Ty}

theorem Normal.of_mem_union (hu : (Ty.union u).Normal) (ht : t ∈ u.elts) : t.Normal :=
  hu.of_mem_parts (s := Ty.union u) ht

theorem Normal.of_mem_elts (hc : (Ty.container c).Normal) (ht : t ∈ c.elts) : t.Normal := by
  cases hc with
  | leaf h => cases h
  | container _ elts _ => exact elts t ht

theorem Normal.of_mem_values (hc : (Ty.container c).Normal) (ht : t ∈ c.values) : t.Normal := by
  cases hc with
  | leaf h => cases h
  | container _ _ values => exact values t ht

theorem Normal.distinct (hc : (Ty.container c).Normal) : c.Distinct := by
  cases hc with
  | leaf h => cases h
  | container distinct _ _ => exact distinct

theorem Same.sameMembers_union (h : (Ty.union u).Same (.union v)) : SameMembers u.elts v.elts := by
  constructor
  · intro x hx
    obtain ⟨y, hy, hyx⟩ := (alike_union.1 h.alike).2 x hx
    exact ⟨y, hy, Same.symm ⟨h.right.of_mem_union hy, h.left.of_mem_union hx, hyx⟩⟩
  · intro y hy
    obtain ⟨x, hx, hxy⟩ := (alike_union.1 h.symm.alike).2 y hy
    exact ⟨x, hx, h.left.of_mem_union hx, h.right.of_mem_union hy, hxy⟩

theorem Same.sameMembers_bag (h : (Ty.container c).Same (.container d))
    (hkind : c.kind = .list ∨ c.kind = .set) : SameMembers c.elts d.elts := by
  constructor
  · intro x hx
    obtain ⟨y, hy, hyx⟩ := ((alike_bag hkind).1 h.alike).2.2 x hx
    exact ⟨y, hy, Same.symm ⟨h.right.of_mem_elts hy, h.left.of_mem_elts hx, hyx⟩⟩
  · intro y hy
    obtain ⟨x, hx, hxy⟩ := ((alike_bag (kind_of_alike h.alike ▸ hkind)).1 h.symm.alike).2.2 y hy
    exact ⟨x, hx, h.left.of_mem_elts hx, h.right.of_mem_elts hy, hxy⟩

theorem Same.forall₂_tuple (h : (Ty.container c).Same (.container d)) (hkind : c.kind = .tuple) :
    List.Forall₂ Same c.elts d.elts := by
  have hall := ((alike_tuple hkind).1 h.alike).2
  refine List.forall₂_iff_zip.2 ⟨hall.length_eq, fun {x y} hxy => ?_⟩
  obtain ⟨hx, hy⟩ := List.of_mem_zip hxy
  exact ⟨h.left.of_mem_elts hx, h.right.of_mem_elts hy, List.forall₂_zip hall hxy⟩

theorem Same.sameMembers_dict (h : (Ty.container c).Same (.container d)) (hkind : c.kind = .dict) :
    SameMembers c.elts d.elts ∧ SameMembers c.values d.values := by
  have hkind' : d.kind = .dict := kind_of_alike h.alike ▸ hkind
  have hkeys {e : Container Ty} (he : (Ty.container e).Normal) (hk : e.kind = .dict) :
      e.pairs.map Prod.fst = e.elts :=
    List.map_fst_zip (Nat.le_of_eq (he.distinct.values hk).symm)
  have hvalues {e : Container Ty} (he : (Ty.container e).Normal) (hk : e.kind = .dict) :
      e.pairs.map Prod.snd = e.values :=
    List.map_snd_zip (Nat.le_of_eq (he.distinct.values hk))
  have hforth : ∀ p ∈ c.pairs, ∃ q ∈ d.pairs, p.1.Same q.1 ∧ p.2.Same q.2 := by
    intro p hp
    obtain ⟨q, hq, hpq⟩ := ((alike_dict hkind).1 h.alike).2.2 p hp
    obtain ⟨hp₁, hp₂⟩ := List.of_mem_zip hp
    obtain ⟨hq₁, hq₂⟩ := List.of_mem_zip hq
    exact ⟨q, hq, ⟨h.left.of_mem_elts hp₁, h.right.of_mem_elts hq₁, hpq.1⟩,
      ⟨h.left.of_mem_values hp₂, h.right.of_mem_values hq₂, hpq.2⟩⟩
  have hback : ∀ q ∈ d.pairs, ∃ p ∈ c.pairs, p.1.Same q.1 ∧ p.2.Same q.2 := by
    intro q hq
    obtain ⟨p, hp, hqp⟩ := ((alike_dict hkind').1 h.symm.alike).2.2 q hq
    obtain ⟨hp₁, hp₂⟩ := List.of_mem_zip hp
    obtain ⟨hq₁, hq₂⟩ := List.of_mem_zip hq
    exact ⟨p, hp, Same.symm ⟨h.right.of_mem_elts hq₁, h.left.of_mem_elts hp₁, hqp.1⟩,
      Same.symm ⟨h.right.of_mem_values hq₂, h.left.of_mem_values hp₂, hqp.2⟩⟩
  rw [← hkeys h.left hkind, ← hkeys h.right hkind', ← hvalues h.left hkind,
    ← hvalues h.right hkind']
  constructor
  · exact .map Prod.fst Prod.fst (fun p hp => (hforth p hp).imp fun _ hq => ⟨hq.1, hq.2.1⟩)
      fun q hq => (hback q hq).imp fun _ hp => ⟨hp.1, hp.2.1⟩
  · exact .map Prod.snd Prod.snd (fun p hp => (hforth p hp).imp fun _ hq => ⟨hq.1, hq.2.2⟩)
      fun q hq => (hback q hq).imp fun _ hp => ⟨hp.1, hp.2.2⟩

end Parts

end Credence.Ty

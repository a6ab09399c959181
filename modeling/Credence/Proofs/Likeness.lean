import Mathlib.Data.List.Forall2
import Credence.Proofs.Normal

namespace Credence

/-- Different members, each related to a member of a list, are no more than that list has. Members
related to the same one are related to each other. -/
theorem length_le_of_covered {α : Type} {r : α → α → Prop} {xs ys : List α}
    (hjoin : ∀ x ∈ xs, ∀ x' ∈ xs, ∀ y ∈ ys, r x y → r x' y → r x x')
    (hdistinct : xs.Pairwise fun a b => ¬ (r a b ∧ r b a))
    (hcover : ∀ x ∈ xs, ∃ y ∈ ys, r x y) : xs.length ≤ ys.length := by
  induction xs generalizing ys with
  | nil => exact Nat.zero_le _
  | cons x xs ih =>
    obtain ⟨hx, hxs⟩ := List.forall_mem_cons.1 hcover
    obtain ⟨y, hy, hxy⟩ := hx
    obtain ⟨before, after, rfl⟩ := List.append_of_mem hy
    obtain ⟨hfirst, hrest⟩ := List.pairwise_cons.1 hdistinct
    have hself := List.mem_cons_self (a := x) (l := xs)
    -- the other members are related to none but the rest of the list
    have hcovered : ∀ x' ∈ xs, ∃ z ∈ before ++ after, r x' z := by
      intro x' hx'
      obtain ⟨z, hz, hr⟩ := hxs x' hx'
      rcases List.mem_cons.1 (List.perm_middle.mem_iff.1 hz) with rfl | hz'
      · have hlater := List.mem_cons_of_mem x hx'
        exact absurd ⟨hjoin x hself x' hlater z hy hxy hr, hjoin x' hlater x hself z hy hr hxy⟩
          (hfirst x' hx')
      · exact ⟨z, hz', hr⟩
    have hjoin' : ∀ a ∈ xs, ∀ b ∈ xs, ∀ z ∈ before ++ after, r a z → r b z → r a b :=
      fun a ha b hb z hz => hjoin a (List.mem_cons_of_mem x ha) b (List.mem_cons_of_mem x hb) z
        (List.perm_middle.mem_iff.2 (List.mem_cons_of_mem y hz))
    have hle := ih hjoin' hrest hcovered
    simp only [List.length_append, List.length_cons] at hle ⊢
    omega

/-- Different members, each related to a member of a list that is no longer, leave no member of that
list out. -/
theorem exists_of_covered {α : Type} {r : α → α → Prop} {xs ys : List α}
    (hjoin : ∀ x ∈ xs, ∀ x' ∈ xs, ∀ y ∈ ys, r x y → r x' y → r x x')
    (hdistinct : xs.Pairwise fun a b => ¬ (r a b ∧ r b a)) (hlen : ys.length ≤ xs.length)
    (hcover : ∀ x ∈ xs, ∃ y ∈ ys, r x y) : ∀ y ∈ ys, ∃ x ∈ xs, r x y := by
  by_contra hleft
  push Not at hleft
  obtain ⟨y, hy, hnone⟩ := hleft
  obtain ⟨before, after, rfl⟩ := List.append_of_mem hy
  have hcovered : ∀ x ∈ xs, ∃ z ∈ before ++ after, r x z := by
    intro x hx
    obtain ⟨z, hz, hr⟩ := hcover x hx
    rcases List.mem_cons.1 (List.perm_middle.mem_iff.1 hz) with rfl | hz'
    · exact absurd hr (hnone x hx)
    · exact ⟨z, hz', hr⟩
  have hle := length_le_of_covered (fun x hx x' hx' z hz => hjoin x hx x' hx' z
    (List.perm_middle.mem_iff.2 (List.mem_cons_of_mem y hz))) hdistinct hcovered
  simp only [List.length_append, List.length_cons] at hle hlen
  omega

structure EquivOn {α : Type} (P : α → Prop) (r : α → α → Prop) : Prop where
  symm : ∀ {a b : α}, P a → P b → r a b → r b a
  trans : ∀ {a b c : α}, P a → P b → P c → r a b → r b c → r a c

namespace EquivOn

variable {α : Type} {P : α → Prop} {r : α → α → Prop} (h : EquivOn P r) {xs ys zs : List α}
include h

theorem flip : EquivOn P fun a b => r b a := by
  refine ⟨fun ha hb => h.symm hb ha, fun ha hb hc hab hbc => ?_⟩
  exact h.trans hc hb ha hbc hab

theorem pairs : EquivOn (fun p : α × α => P p.1 ∧ P p.2) fun p q => r p.1 q.1 ∧ r p.2 q.2 := by
  refine ⟨fun hp hq hr => ?_, fun ho hp hq hr hs => ?_⟩
  · exact ⟨h.symm hp.1 hq.1 hr.1, h.symm hp.2 hq.2 hr.2⟩
  · exact ⟨h.trans ho.1 hp.1 hq.1 hr.1 hs.1, h.trans ho.2 hp.2 hq.2 hr.2 hs.2⟩

theorem covers_symm (hxs : ∀ x ∈ xs, P x) (hys : ∀ y ∈ ys, P y)
    (hdistinct : xs.Pairwise fun a b => ¬ (r a b ∧ r b a)) (hlen : xs.length = ys.length)
    (hcover : ∀ x ∈ xs, ∃ y ∈ ys, r x y) : ∀ y ∈ ys, ∃ x ∈ xs, r y x := by
  have hjoin : ∀ x ∈ xs, ∀ x' ∈ xs, ∀ y ∈ ys, r x y → r x' y → r x x' := by
    intro x hx x' hx' y hy hxy hxy'
    have hback := h.symm (hxs x' hx') (hys y hy) hxy'
    exact h.trans (hxs x hx) (hys y hy) (hxs x' hx') hxy hback
  intro y hy
  obtain ⟨x, hx, hxy⟩ := exists_of_covered hjoin hdistinct (Nat.le_of_eq hlen.symm) hcover y hy
  exact ⟨x, hx, h.symm (hxs x hx) (hys y hy) hxy⟩

theorem covers_trans (hxs : ∀ x ∈ xs, P x) (hys : ∀ y ∈ ys, P y) (hzs : ∀ z ∈ zs, P z)
    (hxy : ∀ x ∈ xs, ∃ y ∈ ys, r x y) (hyz : ∀ y ∈ ys, ∃ z ∈ zs, r y z) :
    ∀ x ∈ xs, ∃ z ∈ zs, r x z := by
  intro x hx
  obtain ⟨y, hy, hr⟩ := hxy x hx
  obtain ⟨z, hz, hr'⟩ := hyz y hy
  exact ⟨z, hz, h.trans (hxs x hx) (hys y hy) (hzs z hz) hr hr'⟩

theorem forall₂_symm (hxs : ∀ x ∈ xs, P x) (hys : ∀ y ∈ ys, P y) (hall : List.Forall₂ r xs ys) :
    List.Forall₂ r ys xs := by
  induction hall with
  | nil => exact .nil
  | cons hxy _ ih =>
    obtain ⟨hx, hxs⟩ := List.forall_mem_cons.1 hxs
    obtain ⟨hy, hys⟩ := List.forall_mem_cons.1 hys
    exact .cons (h.symm hx hy hxy) (ih hxs hys)

theorem forall₂_trans (hxs : ∀ x ∈ xs, P x) (hys : ∀ y ∈ ys, P y) (hzs : ∀ z ∈ zs, P z)
    (hxy : List.Forall₂ r xs ys) (hyz : List.Forall₂ r ys zs) : List.Forall₂ r xs zs := by
  induction hxy generalizing zs with
  | nil => exact hyz
  | cons hxy _ ih =>
    cases hyz with
    | cons hyz hrest =>
      obtain ⟨hx, hxs⟩ := List.forall_mem_cons.1 hxs
      obtain ⟨hy, hys⟩ := List.forall_mem_cons.1 hys
      obtain ⟨hz, hzs⟩ := List.forall_mem_cons.1 hzs
      exact .cons (h.trans hx hy hz hxy hyz) (ih hxs hys hzs hrest)

end EquivOn

namespace Ty

section Kinds

variable {a b : Container Ty}

theorem kind_of_alike (h : (container a).alike (container b) = true) : a.kind = b.kind := by
  unfold alike at h
  simp only [Bool.and_eq_true, beq_iff_eq] at h
  exact h.1.1

example : (container { kind := .list }).alike (container { kind := .set }) = false := by cbv

theorem alike_tuple (ha : a.kind = .tuple) :
    (container a).alike (container b) = true ↔
      a.kind = b.kind ∧ List.Forall₂ (fun x y => x.alike y = true) a.elts b.elts := by
  rw [List.forall₂_iff_zip, alike]
  simp [ha, and_assoc]

theorem alike_bag (ha : a.kind = .list ∨ a.kind = .set) :
    (container a).alike (container b) = true ↔
      a.kind = b.kind ∧ a.elts.length = b.elts.length ∧
        ∀ x ∈ a.elts, ∃ y ∈ b.elts, y.alike x = true := by
  rw [alike]
  rcases ha with ha | ha <;> simp [ha, and_assoc]

theorem alike_dict (ha : a.kind = .dict) :
    (container a).alike (container b) = true ↔
      a.kind = b.kind ∧ a.elts.length = b.elts.length ∧
        ∀ p ∈ a.pairs, ∃ q ∈ b.pairs, p.1.alike q.1 = true ∧ p.2.alike q.2 = true := by
  rw [alike]
  simp [ha, and_assoc, -exists_and_left]

end Kinds

theorem alike_union {u v : Union Ty} :
    (union u).alike (union v) = true ↔
      u.elts.length = v.elts.length ∧ ∀ x ∈ u.elts, ∃ y ∈ v.elts, y.alike x = true := by
  rw [alike]
  simp

theorem exists_of_alike_container {a : Container Ty} {t : Ty}
    (h : (container a).alike t = true) : ∃ b, t = container b := by
  cases t with
  | container b => exact ⟨b, rfl⟩
  | _ => simp [alike] at h

theorem exists_of_alike_union {u : Union Ty} {t : Ty} (h : (union u).alike t = true) :
    ∃ v, t = union v := by
  cases t with
  | union v => exact ⟨v, rfl⟩
  | _ => simp [alike] at h

theorem alike_leaf {a b : Ty} (ha : a.isLeaf = true) :
    a.alike b = true ↔
      a = b ∨ ∃ f g, a = builtin f ∧ b = builtin g ∧ f.name = g.name := by
  cases a
  case container | union => cases ha
  all_goals
    cases b
    all_goals simp [alike]
  rintro rfl
  rfl

theorem alike_refl (t : Ty) : t.alike t = true := by
  cases t with
  | container c =>
    have helts (x : Ty) (hx : x ∈ c.elts) : x.alike x = true := alike_refl x
    cases hkind : c.kind with
    | tuple => exact (alike_tuple hkind).2 ⟨rfl, List.forall₂_same.2 helts⟩
    | list => exact (alike_bag (.inl hkind)).2 ⟨rfl, rfl, fun x hx => ⟨x, hx, helts x hx⟩⟩
    | set => exact (alike_bag (.inr hkind)).2 ⟨rfl, rfl, fun x hx => ⟨x, hx, helts x hx⟩⟩
    | dict =>
      refine (alike_dict hkind).2 ⟨rfl, rfl, fun p hp => ⟨p, hp, ?_, ?_⟩⟩
      · exact helts p.1 (List.of_mem_zip hp).1
      · exact alike_refl p.2
  | union u => exact alike_union.2 ⟨rfl, fun x hx => ⟨x, hx, alike_refl x⟩⟩
  | _ => exact (alike_leaf rfl).2 (.inl rfl)
termination_by sizeOf t
decreasing_by
  · subst_vars
    exact sizeOf_lt_of_mem_elts hx
  · subst_vars
    exact sizeOf_lt_of_mem_values (List.of_mem_zip hp).2
  · subst_vars
    exact sizeOf_lt_of_mem_union hx

/-- Types that hold once what counts once, all the way down. The order of alternatives does not matter. -/
inductive Unrepeated : Ty → Prop
  | leaf {t : Ty} (h : t.isLeaf = true) : Unrepeated t
  | container {c : Container Ty} (distinct : c.Distinct) (elts : ∀ t ∈ c.elts, Unrepeated t)
      (values : ∀ t ∈ c.values, Unrepeated t) : Unrepeated (.container c)
  | union {u : Union Ty} (distinct : Distinct u.elts) (elts : ∀ t ∈ u.elts, Unrepeated t) :
      Unrepeated (.union u)

theorem Normal.unrepeated {t : Ty} (h : t.Normal) : t.Unrepeated := by
  induction h with
  | leaf h => exact .leaf h
  | container distinct _ _ elts values => exact .container distinct elts values
  | union normal _ elts => exact .union normal.distinct elts

def Below (n : Nat) (t : Ty) : Prop :=
  t.Unrepeated ∧ sizeOf t < n

namespace Below

variable {n : Nat} {a : Container Ty} {u : Union Ty}

theorem distinct (ha : Below n (container a)) : a.Distinct := by
  cases ha.1 with
  | leaf h => cases h
  | container distinct _ _ => exact distinct

theorem elts (ha : Below (n + 1) (container a)) : ∀ t ∈ a.elts, Below n t := by
  intro t ht
  have := sizeOf_lt_of_mem_elts ht
  have := ha.2
  cases ha.1 with
  | leaf h => cases h
  | container _ elts _ => exact ⟨elts t ht, by omega⟩

theorem pairs (ha : Below (n + 1) (container a)) : ∀ p ∈ a.pairs, Below n p.1 ∧ Below n p.2 := by
  intro p hp
  obtain ⟨helt, hvalue⟩ := List.of_mem_zip hp
  have := sizeOf_lt_of_mem_values hvalue
  have := ha.2
  refine ⟨ha.elts _ helt, ?_⟩
  cases ha.1 with
  | leaf h => cases h
  | container _ _ values => exact ⟨values _ hvalue, by omega⟩

theorem distinct_union (hu : Below n (.union u)) : Distinct u.elts := by
  cases hu.1 with
  | leaf h => cases h
  | union distinct _ => exact distinct

theorem union (hu : Below (n + 1) (.union u)) : ∀ t ∈ u.elts, Below n t := by
  intro t ht
  have := sizeOf_lt_of_mem_union ht
  have := hu.2
  cases hu.1 with
  | leaf h => cases h
  | union _ elts => exact ⟨elts t ht, by omega⟩

end Below

section Step

variable {n : Nat} (h : EquivOn (Below n) fun a b => a.alike b = true) {a b c : Container Ty}
include h

theorem alike_container_symm (ha : Below (n + 1) (container a)) (hb : Below (n + 1) (container b))
    (hab : (container a).alike (container b) = true) :
    (container b).alike (container a) = true := by
  have hbag (hkind : a.kind = .list ∨ a.kind = .set) :
      (container b).alike (container a) = true := by
    obtain ⟨heq, hlen, hcover⟩ := (alike_bag hkind).1 hab
    refine (alike_bag (heq ▸ hkind)).2 ⟨heq.symm, hlen.symm, ?_⟩
    refine h.flip.covers_symm ha.elts hb.elts ?_ hlen hcover
    exact (ha.distinct.elts hkind).imp fun hxy hboth => by simp [hxy] at hboth
  cases hkind : a.kind with
  | tuple =>
    obtain ⟨heq, hall⟩ := (alike_tuple hkind).1 hab
    exact (alike_tuple (heq ▸ hkind)).2 ⟨heq.symm, h.forall₂_symm ha.elts hb.elts hall⟩
  | list => exact hbag (.inl hkind)
  | set => exact hbag (.inr hkind)
  | dict =>
    obtain ⟨heq, hlen, hcover⟩ := (alike_dict hkind).1 hab
    have hpairs : a.pairs.length = b.pairs.length := by
      simp [Container.pairs, ha.distinct.values hkind, hb.distinct.values (heq ▸ hkind), hlen]
    refine (alike_dict (heq ▸ hkind)).2 ⟨heq.symm, hlen.symm, ?_⟩
    refine h.pairs.covers_symm ha.pairs hb.pairs ?_ hpairs hcover
    exact (ha.distinct.pairs hkind).imp fun hpq hboth => by simp [hboth.1] at hpq

theorem alike_container_trans (ha : Below (n + 1) (container a)) (hb : Below (n + 1) (container b))
    (hc : Below (n + 1) (container c)) (hab : (container a).alike (container b) = true)
    (hbc : (container b).alike (container c) = true) :
    (container a).alike (container c) = true := by
  have hbag (hkind : a.kind = .list ∨ a.kind = .set) :
      (container a).alike (container c) = true := by
    obtain ⟨heq, hlen, hcover⟩ := (alike_bag hkind).1 hab
    obtain ⟨heq', hlen', hcover'⟩ := (alike_bag (heq ▸ hkind)).1 hbc
    refine (alike_bag hkind).2 ⟨heq.trans heq', hlen.trans hlen', ?_⟩
    exact h.flip.covers_trans ha.elts hb.elts hc.elts hcover hcover'
  cases hkind : a.kind with
  | tuple =>
    obtain ⟨heq, hall⟩ := (alike_tuple hkind).1 hab
    obtain ⟨heq', hall'⟩ := (alike_tuple (heq ▸ hkind)).1 hbc
    have hall := h.forall₂_trans ha.elts hb.elts hc.elts hall hall'
    exact (alike_tuple hkind).2 ⟨heq.trans heq', hall⟩
  | list => exact hbag (.inl hkind)
  | set => exact hbag (.inr hkind)
  | dict =>
    obtain ⟨heq, hlen, hcover⟩ := (alike_dict hkind).1 hab
    obtain ⟨heq', hlen', hcover'⟩ := (alike_dict (heq ▸ hkind)).1 hbc
    refine (alike_dict hkind).2 ⟨heq.trans heq', hlen.trans hlen', ?_⟩
    exact h.pairs.covers_trans ha.pairs hb.pairs hc.pairs hcover hcover'

theorem alike_union_symm {u v : Union Ty} (hu : Below (n + 1) (union u))
    (hv : Below (n + 1) (union v)) (huv : (union u).alike (union v) = true) :
    (union v).alike (union u) = true := by
  obtain ⟨hlen, hcover⟩ := alike_union.1 huv
  refine alike_union.2 ⟨hlen.symm, h.flip.covers_symm hu.union hv.union ?_ hlen hcover⟩
  exact hu.distinct_union.imp fun hxy hboth => by simp [hxy] at hboth

theorem alike_union_trans {u v w : Union Ty} (hu : Below (n + 1) (union u))
    (hv : Below (n + 1) (union v)) (hw : Below (n + 1) (union w))
    (huv : (union u).alike (union v) = true) (hvw : (union v).alike (union w) = true) :
    (union u).alike (union w) = true := by
  obtain ⟨hlen, hcover⟩ := alike_union.1 huv
  obtain ⟨hlen', hcover'⟩ := alike_union.1 hvw
  refine alike_union.2 ⟨hlen.trans hlen', ?_⟩
  exact h.flip.covers_trans hu.union hv.union hw.union hcover hcover'

end Step

theorem alike_leaf_symm {a b : Ty} (ha : a.isLeaf = true) (h : a.alike b = true) :
    b.alike a = true := by
  obtain rfl | ⟨f, g, rfl, rfl, hname⟩ := (alike_leaf ha).1 h
  · exact h
  · exact (alike_leaf rfl).2 (.inr ⟨g, f, rfl, rfl, hname.symm⟩)

theorem alike_leaf_trans {a b c : Ty} (ha : a.isLeaf = true) (h : a.alike b = true)
    (h' : b.alike c = true) : a.alike c = true := by
  obtain rfl | ⟨f, g, rfl, rfl, hname⟩ := (alike_leaf ha).1 h
  · exact h'
  · obtain rfl | ⟨g', k, hg, rfl, hname'⟩ := (alike_leaf rfl).1 h'
    · exact h
    · cases hg
      exact (alike_leaf rfl).2 (.inr ⟨f, k, rfl, rfl, hname.trans hname'⟩)

theorem equivOn_alike (n : Nat) : EquivOn (Below n) fun a b => a.alike b = true := by
  induction n with
  | zero => exact ⟨fun ha => absurd ha.2 (Nat.not_lt_zero _), fun ha => absurd ha.2 (Nat.not_lt_zero _)⟩
  | succ n h =>
    constructor
    case symm =>
      intro a b ha hb hab
      cases a with
      | container a =>
        obtain ⟨b, rfl⟩ := exists_of_alike_container hab
        exact alike_container_symm h ha hb hab
      | union u =>
        obtain ⟨v, rfl⟩ := exists_of_alike_union hab
        exact alike_union_symm h ha hb hab
      | _ => exact alike_leaf_symm rfl hab
    case trans =>
      intro a b c ha hb hc hab hbc
      cases a with
      | container a =>
        obtain ⟨b, rfl⟩ := exists_of_alike_container hab
        obtain ⟨c, rfl⟩ := exists_of_alike_container hbc
        exact alike_container_trans h ha hb hc hab hbc
      | union u =>
        obtain ⟨v, rfl⟩ := exists_of_alike_union hab
        obtain ⟨w, rfl⟩ := exists_of_alike_union hbc
        exact alike_union_trans h ha hb hc hab hbc
      | _ => exact alike_leaf_trans rfl hab hbc

theorem Unrepeated.alike_symm {a b : Ty} (ha : a.Unrepeated) (hb : b.Unrepeated)
    (h : a.alike b = true) : b.alike a = true := by
  have hequiv := equivOn_alike (sizeOf a + sizeOf b + 1)
  exact hequiv.symm ⟨ha, by omega⟩ ⟨hb, by omega⟩ h

theorem Unrepeated.alike_trans {a b c : Ty} (ha : a.Unrepeated) (hb : b.Unrepeated)
    (hc : c.Unrepeated) (hab : a.alike b = true) (hbc : b.alike c = true) : a.alike c = true := by
  have hequiv := equivOn_alike (sizeOf a + sizeOf b + sizeOf c + 1)
  exact hequiv.trans ⟨ha, by omega⟩ ⟨hb, by omega⟩ ⟨hc, by omega⟩ hab hbc

theorem Normal.alike_symm {a b : Ty} (ha : a.Normal) (hb : b.Normal) (h : a.alike b = true) :
    b.alike a = true :=
  ha.unrepeated.alike_symm hb.unrepeated h

theorem Normal.alike_trans {a b c : Ty} (ha : a.Normal) (hb : b.Normal) (hc : c.Normal)
    (hab : a.alike b = true) (hbc : b.alike c = true) : a.alike c = true :=
  ha.unrepeated.alike_trans hb.unrepeated hc.unrepeated hab hbc

/-- On the types that are built by the operations on types it is an equivalence to be alike. -/
theorem equivalence_alike_of_built :
    Equivalence fun a b : { t : Ty // t.Built } => a.val.alike b.val = true where
  refl a := alike_refl a.val
  symm {a b} h := a.property.normal.alike_symm b.property.normal h
  trans {a b c} h h' := a.property.normal.alike_trans b.property.normal c.property.normal h h'

end Ty

end Credence

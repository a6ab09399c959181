import Credence.Proofs.Joins
import Credence.Proofs.Stable

namespace Credence

namespace Ty

variable {s t : Ty} {xs ys : List Ty}

def isPlain : Ty → Bool
  | prim _ | container _ => false
  | _ => true

theorem shapes (t : Ty) : (∃ p, t = .prim p) ∨ (∃ c, t = .container c) ∨ t.isPlain = true := by
  cases t with
  | prim p => exact .inl ⟨p, rfl⟩
  | container c => exact .inr (.inl ⟨c, rfl⟩)
  | _ => exact .inr (.inr rfl)

namespace Same

theorem isPlain_eq (h : s.Same t) : s.isPlain = t.isPlain := by
  have h := h.alike
  unfold Ty.alike at h
  split at h
  any_goals rfl
  cases h

theorem isNone_eq (h : s.Same t) : s.isNone = t.isNone := by
  have h := h.alike
  unfold Ty.alike at h
  split at h
  any_goals rfl
  · exact congrArg (fun p => (Ty.prim p).isNone) (beq_iff_eq.1 h)
  · cases h

theorem eq_prim {p : Prim} (h : (Ty.prim p).Same t) : t = .prim p := by
  obtain rfl | ⟨f, g, hf, -, -⟩ := (alike_leaf rfl).1 h.alike
  · rfl
  · cases hf

theorem exists_container {c : Container Ty} (h : (Ty.container c).Same t) :
    ∃ d, t = .container d ∧ c.kind = d.kind := by
  obtain ⟨d, rfl⟩ := exists_of_alike_container h.alike
  exact ⟨d, rfl, kind_of_alike h.alike⟩

end Same

theorem Normal.map_alternatives (h : s.Normal) : s.alternatives.map (·.1) = s.parts := by
  cases s with
  | union u => exact List.map_fst_zip (Nat.le_of_eq h.of_union.probs.symm)
  | _ => rfl

theorem sizeOf_of_mem_parts (h : t ∈ s.parts) :
    sizeOf t ≤ sizeOf s ∧ (s.isUnion = true → sizeOf t < sizeOf s) := by
  cases s with
  | union u =>
    have hlt := sizeOf_lt_of_mem_union h
    exact ⟨Nat.le_of_lt hlt, fun _ => hlt⟩
  | _ => exact ⟨Nat.le_of_eq (congrArg sizeOf (List.mem_singleton.1 h)), nofun⟩

end Ty

namespace Container

variable {c d c' d' : Container Ty} {ts : List Ty}

theorem sameMembers_push_list (hc : (Ty.container c).Normal) {t : Ty} (ht : t.Normal) (hkind : c.kind = .list) :
    Ty.SameMembers (c.push t).elts (c.elts ++ [t].filter fun t => !t.isUndefined) := by
  have hself : Ty.SameMembers c.elts c.elts := .refl fun x hx => hc.of_mem_elts hx
  cases hdefined : t.isUndefined with
  | true => simpa [push, pushWith, hdefined] using hself
  | false =>
    cases hamong : t.among c.elts with
    | false =>
      have hmore : Ty.SameMembers (c.elts ++ [t]) (c.elts ++ [t]) :=
        hself.append (.refl (List.forall_mem_singleton.2 ht))
      simpa [push, pushWith, hdefined, hkind, hamong] using hmore
    | true =>
      obtain ⟨x, hx, hxt⟩ := List.any_eq_true.1 hamong
      have hlike : x.Same t := ⟨hc.of_mem_elts hx, ht, hxt⟩
      have hless : Ty.SameMembers c.elts (c.elts ++ [t]) :=
        ⟨fun y hy => ⟨y, List.mem_append_left _ hy, (hc.of_mem_elts hy).same⟩,
          List.forall_mem_append.2 ⟨fun y hy => ⟨y, hy, (hc.of_mem_elts hy).same⟩,
            List.forall_mem_singleton.2 ⟨x, hx, hlike⟩⟩⟩
      simpa [push, pushWith, hdefined, hkind, hamong] using hless

theorem normal_push (hc : (Ty.container c).Normal) {t : Ty} (ht : t.Normal) : (Ty.container (c.push t)).Normal :=
  hc.pushWith ht (fun _ hv => absurd hv (Option.not_mem_none _)) 1.0

theorem normal_foldl_push (hc : (Ty.container c).Normal) (hts : ∀ t ∈ ts, t.Normal) :
    (Ty.container (ts.foldl (fun c t => c.push t) c)).Normal := by
  refine List.foldlRecOn ts _ (motive := fun c => (Ty.container c).Normal) hc ?_
  intro d hd t ht
  exact normal_push hd (hts t ht)

theorem sameMembers_foldl_push_list (hc : (Ty.container c).Normal) (hts : ∀ t ∈ ts, t.Normal)
    (hkind : c.kind = .list) :
    Ty.SameMembers (ts.foldl (fun c t => c.push t) c).elts (c.elts ++ ts.filter fun t => !t.isUndefined) := by
  induction ts generalizing c with
  | nil =>
    rw [List.filter_nil, List.append_nil]
    exact .refl fun x hx => hc.of_mem_elts hx
  | cons t ts ih =>
    obtain ⟨ht, hts⟩ := List.forall_mem_cons.1 hts
    have hrest := ih (normal_push hc ht) hts ((c.kind_push t).trans hkind)
    have hlast : Ty.SameMembers (ts.filter fun t => !t.isUndefined) (ts.filter fun t => !t.isUndefined) :=
      .refl fun x hx => hts x (List.mem_filter.1 hx).1
    have hall := hrest.trans ((sameMembers_push_list hc ht hkind).append hlast)
    rwa [List.append_assoc, ← List.filter_append, List.singleton_append] at hall

theorem isSequence_iff : c.isSequence = true ↔ c.kind = .list ∨ c.kind = .tuple := by
  simp [isSequence]

theorem isSequence_of_kind_eq (h : c.kind = d.kind) : c.isSequence = d.isSequence := by
  rw [isSequence, isSequence, h]

theorem extended_eq (hkind : c.kind = d.kind) (hseq : c.isSequence = true) :
    c.extended d = d.elts.foldl (fun c t => c.push t) c := by
  unfold extended
  rcases isSequence_iff.1 hseq with h | h
  · simp [h, ← hkind]
  · simp [h, ← hkind]

end Container

namespace Ty

variable {c d c' d' : Container Ty} {xs ys : List Ty}

theorem SameMembers.filter_defined (h : SameMembers xs ys) :
    SameMembers (xs.filter fun t => !t.isUndefined) (ys.filter fun t => !t.isUndefined) := by
  constructor
  · intro x hx
    obtain ⟨hx, hdefined⟩ := List.mem_filter.1 hx
    obtain ⟨y, hy, hxy⟩ := h.forth x hx
    exact ⟨y, List.mem_filter.2 ⟨hy, hxy.isUndefined_eq ▸ hdefined⟩, hxy⟩
  · intro y hy
    obtain ⟨hy, hdefined⟩ := List.mem_filter.1 hy
    obtain ⟨x, hx, hxy⟩ := h.back y hy
    exact ⟨x, List.mem_filter.2 ⟨hx, hxy.isUndefined_eq ▸ hdefined⟩, hxy⟩

theorem forall₂_filter_defined (h : List.Forall₂ Same xs ys) :
    List.Forall₂ Same (xs.filter fun t => !t.isUndefined) (ys.filter fun t => !t.isUndefined) := by
  induction h with
  | nil => exact .nil
  | cons hxy _ ih =>
    rw [List.filter_cons, List.filter_cons, hxy.isUndefined_eq]
    split
    · exact .cons hxy ih
    · exact ih

theorem same_list (hc : (container c).Normal) (hd : (container d).Normal) (hckind : c.kind = .list)
    (hdkind : d.kind = .list) (h : SameMembers c.elts d.elts) : (container c).Same (container d) := by
  refine ⟨hc, hd, (alike_bag (.inl hckind)).2 ⟨hckind.trans hdkind.symm, ?_, ?_⟩⟩
  · exact h.length_eq (hc.distinct.elts (.inl hckind)) (hd.distinct.elts (.inl hdkind))
  · intro x hx
    obtain ⟨y, hy, hxy⟩ := h.forth x hx
    exact ⟨y, hy, hxy.symm.alike⟩

theorem Same.extended (hc : (container c).Same (container c')) (hd : (container d).Same (container d'))
    (hkind : c.kind = d.kind) (hseq : c.isSequence = true) :
    (container (c.extended d)).Same (container (c'.extended d')) := by
  have hcc := kind_of_alike hc.alike
  have hkind' : c'.kind = d'.kind := by rw [← hcc, hkind, kind_of_alike hd.alike]
  rw [Container.extended_eq hkind hseq,
    Container.extended_eq hkind' (Container.isSequence_of_kind_eq hcc ▸ hseq)]
  have hleft := Container.normal_foldl_push hc.left fun t ht => hd.left.of_mem_elts ht
  have hright := Container.normal_foldl_push hc.right fun t ht => hd.right.of_mem_elts ht
  rcases Container.isSequence_iff.1 hseq with hlist | htuple
  · have hlist' : c'.kind = .list := hcc ▸ hlist
    apply same_list hleft hright ((Container.kind_foldl_push _ _).trans hlist)
      ((Container.kind_foldl_push _ _).trans hlist')
    have hcs := hc.sameMembers_bag (.inl hlist)
    have hds := hd.sameMembers_bag (.inl (hkind ▸ hlist))
    have hgrown := Container.sameMembers_foldl_push_list hc.left (fun t ht => hd.left.of_mem_elts ht) hlist
    have hgrown' := Container.sameMembers_foldl_push_list hc.right (fun t ht => hd.right.of_mem_elts ht) hlist'
    exact (hgrown.trans (hcs.append hds.filter_defined)).trans hgrown'.symm
  · have htuple' : c'.kind = .tuple := hcc ▸ htuple
    have hcs := hc.forall₂_tuple htuple
    have hds := hd.forall₂_tuple (hkind ▸ htuple)
    refine ⟨hleft, hright, (alike_tuple ((Container.kind_foldl_push _ _).trans htuple)).2 ⟨?_, ?_⟩⟩
    · rw [Container.kind_foldl_push, Container.kind_foldl_push, hcc]
    · rw [Container.elts_foldl_push_tuple htuple, Container.elts_foldl_push_tuple htuple']
      exact (List.rel_append hcs (forall₂_filter_defined hds)).imp fun _ _ h => h.alike

end Ty

/-- The result that an operator has for operands of certain shapes. -/
def BinaryOp.rule? (op : BinaryOp) : Ty → Ty → Option Ty
  | .prim p, .prim q => Prim.combine? op p q
  | .prim p, .container c =>
    if op == .mod && p.isSequence then some (.prim p)
    else if op == .mult && (p == .int || p == .bool) && c.isSequence then some (.container c)
    else none
  | .prim p, _ => if op == .mod && p.isSequence then some (.prim p) else none
  | .container c, .prim p =>
    if op == .mult && (p == .int || p == .bool) && c.isSequence then some (.container c) else none
  | .container c, .container d =>
    if op == .add && c.kind == d.kind && c.isSequence then some (.container (c.extended d)) else none
  | _, _ => none

namespace BinaryOp

variable {op : BinaryOp} {left right left' right' : Ty}

theorem rule?_plain_left (h : left.isPlain = true) (right : Ty) : op.rule? left right = none := by
  cases left with
  | prim | container => cases h
  | _ => rfl

theorem rule?_prim_plain (p : Prim) (h : right.isPlain = true) :
    op.rule? (.prim p) right = if op == .mod && p.isSequence then some (.prim p) else none := by
  cases right with
  | prim | container => cases h
  | _ => rfl

theorem rule?_container_plain (c : Container Ty) (h : right.isPlain = true) :
    op.rule? (.container c) right = none := by
  cases right with
  | prim | container => cases h
  | _ => rfl

theorem normal_combine? {p q : Prim} {t : Ty} (h : Prim.combine? op p q = some t) : t.Normal := by
  unfold Prim.combine? at h
  simp only at h
  repeat' split at h
  all_goals cases h
  all_goals exact .leaf rfl

theorem rel_same_of_normal {t? : Option Ty} (h : ∀ t ∈ t?, t.Normal) : Option.Rel Ty.Same t? t? := by
  cases t? with
  | none => exact .none
  | some t => exact .some (h t rfl).same

theorem rel_same_ite {s t : Ty} (b : Bool) (h : s.Same t) :
    Option.Rel Ty.Same (if b then some s else none) (if b then some t else none) := by
  cases b with
  | true => exact .some h
  | false => exact .none

/-- Operands that are the same come under the same rule, by the shapes of the operands. -/
theorem rel_rule? (op : BinaryOp) (hl : left.Same left') (hr : right.Same right') :
    Option.Rel Ty.Same (op.rule? left right) (op.rule? left' right') := by
  have hprim (p : Prim) : (Ty.prim p).Same (.prim p) := (Ty.Normal.leaf rfl).same
  rcases left.shapes with ⟨p, rfl⟩ | ⟨c, rfl⟩ | hplain
  · obtain rfl := hl.eq_prim
    rcases right.shapes with ⟨q, rfl⟩ | ⟨d, rfl⟩ | hplain
    · obtain rfl := hr.eq_prim
      exact rel_same_of_normal fun t ht => normal_combine? ht
    · obtain ⟨d', rfl, hkind⟩ := hr.exists_container
      simp only [rule?, Container.isSequence_of_kind_eq hkind]
      split
      · exact .some (hprim p)
      · exact rel_same_ite _ hr
    · rw [rule?_prim_plain p hplain, rule?_prim_plain p (hr.isPlain_eq ▸ hplain)]
      exact rel_same_ite _ (hprim p)
  · obtain ⟨c', rfl, hkind⟩ := hl.exists_container
    rcases right.shapes with ⟨q, rfl⟩ | ⟨d, rfl⟩ | hplain
    · obtain rfl := hr.eq_prim
      simp only [rule?, Container.isSequence_of_kind_eq hkind]
      exact rel_same_ite _ hl
    · obtain ⟨d', rfl, hkind'⟩ := hr.exists_container
      simp only [rule?, Container.isSequence_of_kind_eq hkind, hkind, hkind']
      split
      · rename_i hrule
        simp only [Bool.and_eq_true, beq_iff_eq] at hrule
        have hkinds : c.kind = d.kind := by rw [hkind, hrule.1.2, hkind']
        exact .some (hl.extended hr hkinds (Container.isSequence_of_kind_eq hkind ▸ hrule.2))
      · exact .none
    · rw [rule?_container_plain c hplain, rule?_container_plain c' (hr.isPlain_eq ▸ hplain)]
      exact .none
  · rw [rule?_plain_left hplain, rule?_plain_left (hl.isPlain_eq ▸ hplain)]
    exact .none

theorem isSome_combine?_comm (hop : op ≠ .mod) (p q : Prim) :
    (Prim.combine? op p q).isSome = (Prim.combine? op q p).isSome := by
  cases op with
  | mod => exact absurd rfl hop
  | _ => cases p <;> cases q <;> rfl

theorem isSome_rule?_comm (hop : op ≠ .mod) (left right : Ty) :
    (op.rule? left right).isSome = (op.rule? right left).isSome := by
  have hmod : (op == .mod) = false := beq_eq_false_iff_ne.2 hop
  have hsides (p : Prim) (c : Container Ty) :
      (op.rule? (.prim p) (.container c)).isSome = (op.rule? (.container c) (.prim p)).isSome := by
    simp only [rule?, hmod, Bool.false_and, Bool.false_eq_true, if_false]
  rcases left.shapes with ⟨p, rfl⟩ | ⟨c, rfl⟩ | hleft
  · rcases right.shapes with ⟨q, rfl⟩ | ⟨d, rfl⟩ | hright
    · exact isSome_combine?_comm hop p q
    · exact hsides p d
    · rw [rule?_prim_plain p hright, rule?_plain_left hright, hmod]
      rfl
  · rcases right.shapes with ⟨q, rfl⟩ | ⟨d, rfl⟩ | hright
    · exact (hsides q c).symm
    · have hkinds : (op == .add && c.kind == d.kind && c.isSequence) =
          (op == .add && d.kind == c.kind && d.isSequence) := by
        by_cases hkind : c.kind = d.kind
        · rw [Container.isSequence_of_kind_eq hkind, hkind]
        · rw [beq_eq_false_iff_ne.2 hkind, beq_eq_false_iff_ne.2 (Ne.symm hkind), Bool.and_false,
            Bool.false_and, Bool.false_and]
      simp only [rule?, hkinds]
      split <;> rfl
    · rw [rule?_container_plain c hright, rule?_plain_left hright]
  · rw [rule?_plain_left hleft]
    rcases right.shapes with ⟨q, rfl⟩ | ⟨d, rfl⟩ | hright
    · rw [rule?_prim_plain q hleft, hmod]
      rfl
    · rw [rule?_container_plain d hleft]
    · rw [rule?_plain_left hright]

end BinaryOp

/-- Two results that are related, or two failures. -/
inductive Agree (r : Ty → Ty → Prop) : Except Mismatch Ty → Except Mismatch Ty → Prop
  | ok {s t : Ty} (h : r s t) : Agree r (.ok s) (.ok t)
  | error (m m' : Mismatch) : Agree r (.error m) (.error m')

theorem Agree.imp {r r' : Ty → Ty → Prop} {e e' : Except Mismatch Ty} (h : Agree r e e')
    (hr : ∀ s t, r s t → r' s t) : Agree r' e e' := by
  cases h with
  | ok h => exact .ok (hr _ _ h)
  | error m m' => exact .error m m'

namespace Arena

variable {a : Arena} {op : BinaryOp} {left right left' right' : Ty}

/-- The result where no rule counts. -/
def combineOther (a : Arena) (op : BinaryOp) (left right : Ty) : Except Mismatch Ty :=
  if a.hasUnknownBase left || a.hasUnknownBase right then .ok .any
  else a.combineConsistent op left right

theorem combineSingle_eq (a : Arena) (op : BinaryOp) (left right : Ty) :
    a.combineSingle op left right =
      if left.isNone || right.isNone || op.isBitwise then .ok .any
      else
        match op.rule? left right with
        | some t => .ok t
        | none => a.combineOther op left right := by
  unfold combineSingle
  split
  · rfl
  rcases left.shapes with ⟨p, rfl⟩ | ⟨c, rfl⟩ | hleft
  · rcases right.shapes with ⟨q, rfl⟩ | ⟨d, rfl⟩ | hright
    · simp only [BinaryOp.rule?]
      cases Prim.combine? op p q <;> rfl
    · simp only [BinaryOp.rule?]
      split
      · rfl
      · split <;> rfl
    · cases right with
      | prim | container => cases hright
      | _ =>
        simp only [BinaryOp.rule?]
        split <;> rfl
  · rcases right.shapes with ⟨q, rfl⟩ | ⟨d, rfl⟩ | hright
    · simp only [BinaryOp.rule?]
      split <;> rfl
    · simp only [BinaryOp.rule?]
      split <;> rfl
    · cases right with
      | prim | container => cases hright
      | _ => rfl
  · cases left with
    | prim | container => cases hleft
    | _ => rfl

theorem isConsistent_of_same (hl : left.Same left') (hr : right.Same right') :
    a.isConsistent left right = a.isConsistent left' right' := by
  have hforth := Bool.eq_iff_iff.2 ⟨a.isSubtype_of_same hl hr, isSubtype_of_same hl.symm hr.symm⟩
  have hback := Bool.eq_iff_iff.2 ⟨a.isSubtype_of_same hr hl, isSubtype_of_same hr.symm hl.symm⟩
  rw [isConsistent, isConsistent, hforth, hback]

theorem hasUnknownBase_of_same (h : left.Same left') : a.hasUnknownBase left = a.hasUnknownBase left' := by
  have h := h.alike
  unfold Ty.alike at h
  split at h
  any_goals rfl
  · exact congrArg (fun o => a.hasUnknownBase (.object o)) (beq_iff_eq.1 h)
  · cases h

theorem agree_combineOther (hl : left.Same left') (hr : right.Same right') :
    Agree Ty.Same (a.combineOther op left right) (a.combineOther op left' right') := by
  unfold combineOther combineConsistent
  rw [hasUnknownBase_of_same hl, hasUnknownBase_of_same hr, isConsistent_of_same hl hr]
  split
  · exact .ok (Ty.Normal.leaf rfl).same
  · split
    · exact .ok hl
    · exact .error _ _

theorem agree_combineSingle (a : Arena) (op : BinaryOp) (hl : left.Same left') (hr : right.Same right') :
    Agree Ty.Same (a.combineSingle op left right) (a.combineSingle op left' right') := by
  rw [combineSingle_eq, combineSingle_eq, hl.isNone_eq, hr.isNone_eq]
  split
  · exact .ok (Ty.Normal.leaf rfl).same
  · have hrule := op.rel_rule? hl hr
    generalize op.rule? left right = t?, op.rule? left' right' = t?' at hrule ⊢
    cases hrule with
    | some h => exact .ok h
    | none => exact agree_combineOther hl hr

theorem exists_combineOther_comm (a : Arena) (op : BinaryOp) (left right : Ty) :
    (∃ t, a.combineOther op left right = .ok t) ↔ ∃ t, a.combineOther op right left = .ok t := by
  have hbases : (a.hasUnknownBase right || a.hasUnknownBase left) =
      (a.hasUnknownBase left || a.hasUnknownBase right) := Bool.or_comm _ _
  have hconsistent : a.isConsistent right left = a.isConsistent left right := Bool.or_comm _ _
  unfold combineOther combineConsistent
  rw [hbases, hconsistent]
  split
  · exact Iff.rfl
  · split
    · exact ⟨fun _ => ⟨right, rfl⟩, fun _ => ⟨left, rfl⟩⟩
    · exact ⟨nofun, nofun⟩

theorem exists_combineSingle_comm (a : Arena) (hop : op ≠ .mod) (left right : Ty) :
    (∃ t, a.combineSingle op left right = .ok t) ↔ ∃ t, a.combineSingle op right left = .ok t := by
  have hnone : (right.isNone || left.isNone || op.isBitwise) =
      (left.isNone || right.isNone || op.isBitwise) := by rw [Bool.or_comm right.isNone]
  have hrule := op.isSome_rule?_comm hop left right
  rw [combineSingle_eq, combineSingle_eq, hnone]
  split
  · exact Iff.rfl
  · cases hforth : op.rule? left right with
    | some s =>
      cases hback : op.rule? right left with
      | some t => exact ⟨fun _ => ⟨t, rfl⟩, fun _ => ⟨s, rfl⟩⟩
      | none =>
        rw [hforth, hback] at hrule
        cases hrule
    | none =>
      cases hback : op.rule? right left with
      | some t =>
        rw [hforth, hback] at hrule
        cases hrule
      | none => exact a.exists_combineOther_comm op left right

def pairResult? (a : Arena) (op : BinaryOp) (l r : Ty × Float) : Option (Ty × Float) :=
  match a.combine op l.1 r.1 with
  | .ok t => some (t, l.2 * r.2)
  | .error _ => none

def pairResults (a : Arena) (op : BinaryOp) (left right : Ty) : List (Ty × Float) :=
  left.alternatives.flatMap fun l => right.alternatives.filterMap (a.pairResult? op l)

theorem combine_of_isUnknown (h : (left.isUnknown || right.isUnknown) = true) :
    a.combine op left right = .ok .any := by
  rw [combine, if_pos h]

theorem combine_of_isUnion (hknown : (left.isUnknown || right.isUnknown) = false)
    (hunion : (left.isUnion || right.isUnion) = true) :
    a.combine op left right =
      if (a.pairResults op left right).isEmpty then .error ⟨op, left, right⟩
      else .ok (.oneOf ((a.pairResults op left right).map (·.1))
        (some ((a.pairResults op left right).map (·.2)))) := by
  have hright (l : Ty × Float) : right.alternatives.attach.filterMap (fun r => a.pairResult? op l r.1) =
      right.alternatives.filterMap (a.pairResult? op l) := by
    rw [List.filterMap_subtype (g := a.pairResult? op l) fun _ _ => rfl, List.unattach_attach]
  have hpairs : left.alternatives.attach.flatMap (fun l =>
      right.alternatives.attach.filterMap fun r => a.pairResult? op l.1 r.1) = a.pairResults op left right := by
    rw [List.flatMap_subtype fun l _ => hright l, List.unattach_attach]
    rfl
  rw [combine, hknown, if_neg Bool.false_ne_true, dif_pos hunion, ← hpairs]
  rfl

theorem combine_of_isUnion_eq_false (hknown : (left.isUnknown || right.isUnknown) = false)
    (hunion : (left.isUnion || right.isUnion) = false) :
    a.combine op left right = a.combineSingle op left right := by
  rw [combine, hknown, if_neg Bool.false_ne_true, hunion, dif_neg Bool.false_ne_true]

theorem mem_pairResults {t : Ty} :
    t ∈ (a.pairResults op left right).map (·.1) ↔
      ∃ l ∈ left.alternatives, ∃ r ∈ right.alternatives, a.combine op l.1 r.1 = .ok t := by
  have hpair (l r : Ty × Float) :
      (∃ item, a.pairResult? op l r = some item ∧ item.1 = t) ↔ a.combine op l.1 r.1 = .ok t := by
    unfold pairResult?
    cases a.combine op l.1 r.1 with
    | ok s => simp
    | error m => simp
  simp only [pairResults, List.mem_map, List.mem_flatMap, List.mem_filterMap, ← hpair]
  constructor
  · rintro ⟨item, ⟨l, hl, r, hr, hitem⟩, rfl⟩
    exact ⟨l, hl, r, hr, item, hitem, rfl⟩
  · rintro ⟨l, hl, r, hr, item, hitem, rfl⟩
    exact ⟨item, ⟨l, hl, r, hr, hitem⟩, rfl⟩

theorem mem_pairResults_of_normal (hl : left.Normal) (hr : right.Normal) {t : Ty} :
    t ∈ (a.pairResults op left right).map (·.1) ↔
      ∃ x ∈ left.parts, ∃ y ∈ right.parts, a.combine op x y = .ok t := by
  rw [mem_pairResults, ← hl.map_alternatives, ← hr.map_alternatives]
  simp only [List.mem_map, exists_exists_and_eq_and]

theorem sameMembers_pairResults (hl : left.Same left') (hr : right.Same right')
    (h : ∀ x ∈ left.parts, ∀ y ∈ right.parts, ∀ x' y', x.Same x' → y.Same y' →
      Agree Ty.Same (a.combine op x y) (a.combine op x' y')) :
    Ty.SameMembers ((a.pairResults op left right).map (·.1)) ((a.pairResults op left' right').map (·.1)) := by
  constructor
  · intro t ht
    obtain ⟨x, hx, y, hy, hxy⟩ := (mem_pairResults_of_normal hl.left hr.left).1 ht
    obtain ⟨x', hx', hxx⟩ := hl.sameMembers_parts.forth x hx
    obtain ⟨y', hy', hyy⟩ := hr.sameMembers_parts.forth y hy
    have hagree := h x hx y hy x' y' hxx hyy
    rw [hxy] at hagree
    generalize hresult : a.combine op x' y' = result at hagree
    cases hagree with
    | @ok _ t' htt =>
      exact ⟨t', (mem_pairResults_of_normal hl.right hr.right).2 ⟨x', hx', y', hy', hresult⟩, htt⟩
  · intro t' ht'
    obtain ⟨x', hx', y', hy', hxy⟩ := (mem_pairResults_of_normal hl.right hr.right).1 ht'
    obtain ⟨x, hx, hxx⟩ := hl.sameMembers_parts.back x' hx'
    obtain ⟨y, hy, hyy⟩ := hr.sameMembers_parts.back y' hy'
    have hagree := h x hx y hy x' y' hxx hyy
    rw [hxy] at hagree
    generalize hresult : a.combine op x y = result at hagree
    cases hagree with
    | @ok t _ htt =>
      exact ⟨t, (mem_pairResults_of_normal hl.left hr.left).2 ⟨x, hx, y, hy, hresult⟩, htt⟩

theorem agree_oneOf {items items' : List (Ty × Float)} {m m' : Mismatch}
    (h : Ty.SameMembers (items.map (·.1)) (items'.map (·.1))) :
    Agree Ty.Same
      (if items.isEmpty then .error m else .ok (.oneOf (items.map (·.1)) (some (items.map (·.2)))))
      (if items'.isEmpty then .error m' else .ok (.oneOf (items'.map (·.1)) (some (items'.map (·.2))))) := by
  have hempty : items'.isEmpty = items.isEmpty := by
    rw [Bool.eq_iff_iff, List.isEmpty_iff, List.isEmpty_iff, ← List.map_eq_nil_iff (f := Prod.fst),
      ← List.map_eq_nil_iff (f := Prod.fst)]
    exact ⟨h.symm.eq_nil, h.eq_nil⟩
  rw [hempty]
  split
  · exact .error m m'
  · have hitems (t : Ty) (ht : t ∈ items.map (·.1)) : t.Normal := (h.forth t ht).choose_spec.2.left
    have hitems' (t : Ty) (ht : t ∈ items'.map (·.1)) : t.Normal := (h.back t ht).choose_spec.2.right
    exact .ok ⟨Ty.normal_oneOf _ hitems, Ty.normal_oneOf _ hitems',
      Ty.alike_oneOf hitems hitems' (Union.sameMembers_given h)⟩

/-- Operands that are the same have results that are the same. By induction on the size of the operands, since
a union is combined alternative by alternative. -/
theorem agree_combine (a : Arena) (op : BinaryOp) (hl : left.Same left') (hr : right.Same right') :
    Agree Ty.Same (a.combine op left right) (a.combine op left' right') := by
  induction hn : sizeOf left + sizeOf right using Nat.strongRecOn generalizing left right left' right' with
  | _ n ih =>
    subst hn
    have hknown : (left'.isUnknown || right'.isUnknown) = (left.isUnknown || right.isUnknown) := by
      rw [hl.isUnknown_eq, hr.isUnknown_eq]
    have hunion : (left'.isUnion || right'.isUnion) = (left.isUnion || right.isUnion) := by
      rw [hl.isUnion_eq, hr.isUnion_eq]
    cases hk : left.isUnknown || right.isUnknown with
    | true =>
      rw [combine_of_isUnknown hk, combine_of_isUnknown (hknown.trans hk)]
      exact .ok (Ty.Normal.leaf rfl).same
    | false =>
      cases hu : left.isUnion || right.isUnion with
      | false =>
        rw [combine_of_isUnion_eq_false hk hu, combine_of_isUnion_eq_false (hknown.trans hk) (hunion.trans hu)]
        exact a.agree_combineSingle op hl hr
      | true =>
        rw [combine_of_isUnion hk hu, combine_of_isUnion (hknown.trans hk) (hunion.trans hu)]
        apply agree_oneOf
        apply sameMembers_pairResults hl hr
        intro x hx y hy x' y' hxx hyy
        have hsx := Ty.sizeOf_of_mem_parts hx
        have hsy := Ty.sizeOf_of_mem_parts hy
        refine ih _ ?_ hxx hyy rfl
        rcases Bool.or_eq_true _ _ ▸ hu with hu | hu
        · have := hsx.2 hu
          omega
        · have := hsy.2 hu
          omega

theorem exists_combine_iff (hknown : (left.isUnknown || right.isUnknown) = false)
    (hunion : (left.isUnion || right.isUnion) = true) :
    (∃ t, a.combine op left right = .ok t) ↔
      ∃ l ∈ left.alternatives, ∃ r ∈ right.alternatives, ∃ t, a.combine op l.1 r.1 = .ok t := by
  rw [combine_of_isUnion hknown hunion]
  cases hresults : a.pairResults op left right with
  | nil =>
    refine ⟨nofun, ?_⟩
    rintro ⟨l, hl, r, hr, t, ht⟩
    have hmem : t ∈ (a.pairResults op left right).map (·.1) := mem_pairResults.2 ⟨l, hl, r, hr, ht⟩
    rw [hresults] at hmem
    exact absurd hmem List.not_mem_nil
  | cons item rest =>
    have hmem : item.1 ∈ (a.pairResults op left right).map (·.1) := by simp [hresults]
    obtain ⟨l, hl, r, hr, ht⟩ := mem_pairResults.1 hmem
    exact ⟨fun _ => ⟨l, hl, r, hr, item.1, ht⟩, fun _ => ⟨_, rfl⟩⟩

theorem exists_combine_comm (a : Arena) (hop : op ≠ .mod) (left right : Ty) :
    (∃ t, a.combine op left right = .ok t) ↔ ∃ t, a.combine op right left = .ok t := by
  -- By induction on the size of the operands.
  induction hn : sizeOf left + sizeOf right using Nat.strongRecOn generalizing left right with
  | _ n ih =>
    subst hn
    cases hk : left.isUnknown || right.isUnknown with
    | true =>
      rw [combine_of_isUnknown hk, combine_of_isUnknown (Bool.or_comm _ _ ▸ hk)]
    | false =>
      have hk' : (right.isUnknown || left.isUnknown) = false := Bool.or_comm _ _ ▸ hk
      cases hu : left.isUnion || right.isUnion with
      | false =>
        rw [combine_of_isUnion_eq_false hk hu, combine_of_isUnion_eq_false hk' (Bool.or_comm _ _ ▸ hu)]
        exact a.exists_combineSingle_comm hop left right
      | true =>
        have hpair (l : Ty × Float) (hl : l ∈ left.alternatives) (r : Ty × Float) (hr : r ∈ right.alternatives) :
            (∃ t, a.combine op l.1 r.1 = .ok t) ↔ ∃ t, a.combine op r.1 l.1 = .ok t := by
          have hsl := Ty.sizeOf_of_mem_alternatives hl
          have hsr := Ty.sizeOf_of_mem_alternatives hr
          refine ih _ ?_ l.1 r.1 rfl
          rcases Bool.or_eq_true _ _ ▸ hu with hu | hu
          · have := hsl.2 hu
            omega
          · have := hsr.2 hu
            omega
        rw [exists_combine_iff hk hu, exists_combine_iff hk' (Bool.or_comm _ _ ▸ hu)]
        constructor
        · rintro ⟨l, hl, r, hr, ht⟩
          exact ⟨r, hr, l, hl, (hpair l hl r hr).1 ht⟩
        · rintro ⟨r, hr, l, hl, ht⟩
          exact ⟨l, hl, r, hr, (hpair l hl r hr).2 ht⟩

/-- Operands that are alike both have no result, or have results that are alike. Whether operands have a
result for an operator that does not format is all the same the other way round. -/
theorem combine_respects_types (a : Arena) (op : BinaryOp) :
    (∀ left right left' right' : { t : Ty // t.Composed },
      left.val.alike left'.val = true → right.val.alike right'.val = true →
        Agree (fun s t => s.alike t = true) (a.combine op left.val right.val)
          (a.combine op left'.val right'.val)) ∧
      (op ≠ .mod → ∀ left right : Ty,
        (∃ t, a.combine op left right = .ok t) ↔ ∃ t, a.combine op right left = .ok t) := by
  constructor
  · intro left right left' right' hl hr
    have hleft : left.val.Same left'.val := ⟨left.property.built.normal, left'.property.built.normal, hl⟩
    have hright : right.val.Same right'.val := ⟨right.property.built.normal, right'.property.built.normal, hr⟩
    exact (a.agree_combine op hleft hright).imp fun _ _ h => h.alike
  · exact fun hop => a.exists_combine_comm hop

/-- Lists of the same elements in another order, added to a list and repeated. -/
theorem combine_reordered :
    (Ty.listOf [.int, .str]).alike (.listOf [.str, .int]) = true ∧
      Agree (fun s t => s.alike t = true) (combine {} .add (.listOf [.int, .str]) (.listOf [.float]))
        (combine {} .add (.listOf [.str, .int]) (.listOf [.float])) ∧
      ∃ t, combine {} .mult .int (.listOf [.int, .str]) = .ok t := by
  have hleaf (ps : List Prim) : (Ty.listOf (ps.map Ty.prim)).Composed := by
    apply Ty.Composed.ofElts
    intro t ht
    obtain ⟨p, -, rfl⟩ := List.mem_map.1 ht
    exact .leaf rfl
  have halike : (Ty.listOf [.int, .str]).alike (.listOf [.str, .int]) = true := by
    simp [Ty.listOf, Container.ofElts, Container.push, Container.pushWith, Ty.isUndefined, Ty.among, Ty.alike]
  have hrepeat : combine {} .mult (.listOf [.int, .str]) .int = .ok (.listOf [.int, .str]) := by
    have hkind : (Container.ofElts .list [Ty.int, Ty.str]).kind = .list := Container.kind_foldl_push _ _
    rw [combine_of_isUnion_eq_false rfl rfl, combineSingle_eq]
    simp [BinaryOp.rule?, BinaryOp.isBitwise, Ty.listOf, Ty.isNone, Container.isSequence, hkind]
  obtain ⟨hagree, -⟩ := combine_respects_types {} .add
  obtain ⟨-, hcomm⟩ := combine_respects_types {} .mult
  exact ⟨halike,
    hagree ⟨_, hleaf [.int, .str]⟩ ⟨_, hleaf [.float]⟩ ⟨_, hleaf [.str, .int]⟩ ⟨_, hleaf [.float]⟩ halike
      (Ty.alike_refl _),
    (hcomm (by decide) .int (.listOf [.int, .str])).2 ⟨_, hrepeat⟩⟩

end Arena

end Credence

import Credence.Check.Expr
import Credence.Proofs.Sound

namespace Credence

namespace Ty.Stable

open Check

variable {P : Ty → Prop} (h : Stable P) {c d : Container Ty} {s t : Ty}
include h

theorem resolve {b : Builtin Ty} {args : List Ty} (hret : P b.ret) (hargs : ∀ t ∈ args, P t) :
    P (b.resolve args).1 := by
  unfold Builtin.resolve
  split
  · rename_i t ht
    exact h.refine? hargs ht
  · split <;> exact hret

theorem member? {name : String} (hc : P (.container c)) (ht : c.member? name = some t) : P t :=
  h.callable (h.callable_member? hc ht)

theorem prim_member? {p : Prim} {name : String} (ht : p.member? name = some t) : P t := by
  unfold Prim.member? at ht
  split at ht
  · cases ht
    exact h.shape _
  · obtain ⟨shapes, -, rfl⟩ := Option.map_eq_some_iff.1 ht
    exact h.callable (h.callable_ofShapes _ shapes)

theorem objectMethod? {name : String} (ht : Builtin.objectMethod? name = some t) : P t :=
  h.callable (h.callable_objectMethod? ht)

theorem specialCallable (name : String) : P (Arena.specialCallable name) :=
  h.builtin (List.forall_mem_singleton.2 h.any) h.any

theorem bindings {entry : String × Ty} (hentry : entry ∈ Builtin.bindings) : P entry.2 := by
  rcases List.mem_append.1 hentry with hentry | hentry
  · obtain ⟨signature, -, rfl⟩ := List.mem_map.1 hentry
    exact h.callable (h.callable_ofShapes _ _)
  · simp only [List.mem_cons, List.not_mem_nil, or_false] at hentry
    rcases hentry with rfl | rfl | rfl <;> exact h.prim _

theorem sliced (ht : P t) : P (Check.sliced t) := by
  induction t using WellFounded.induction (measure (sizeOf : Ty → Nat)).wf with
  | _ t ih =>
    rw [sliced.eq_def]
    cases t with
    | container c =>
      simp only
      split
      · exact ht
      · exact h.tupleOf (h.prims [])
      · exact h.any
      · exact h.any
    | union u =>
      exact h.oneOf_map _ fun t => ih t.1 (Ty.sizeOf_lt_of_mem_union t.2) (h.ofUnion ht t.1 t.2)
    | prim p => cases p <;> first | exact h.prim _ | exact h.any
    | _ => exact h.any

theorem tupleItem (hc : P (.container c)) (index? : Option Int) : P (Check.tupleItem c index?) := by
  have helement := h.containerElementType hc
  unfold Check.tupleItem
  split
  · exact helement
  · rename_i index
    simp only
    generalize (if index < 0 then index + c.elts.length else index) = place
    split
    · exact helement
    · cases hplace : c.elts[place.toNat]? with
      | none => exact helement
      | some t => exact h.elts hc t (List.mem_of_getElem? hplace)

omit h in
theorem known (ht : P t) : ∀ s ∈ Check.known t, P s := by
  intro s hs
  unfold Check.known at hs
  split at hs
  · exact absurd hs List.not_mem_nil
  · exact List.mem_singleton.1 hs ▸ ht

theorem spreadOver {targets : List Expr} (ht : P t) {item : Expr × Ty}
    (hitem : item ∈ Check.spreadOver targets t) : P item.2 := by
  unfold Check.spreadOver at hitem
  simp only at hitem
  have hspread : P (if t.elementType.isUnknown && t.asContainer?.isNone then t
      else t.elementType) := by
    split
    · exact ht
    · exact h.elementType ht
  obtain ⟨target, -, rfl⟩ := List.mem_map.1 hitem
  split
  · exact h.listOf (known hspread)
  · exact hspread

theorem distribute {targets : List Expr} (ht : P t) {item : Expr × Ty}
    (hitem : item ∈ Check.distribute targets t) : P item.2 := by
  have spread (hitem : item ∈ Check.spreadOver targets t) : P item.2 := h.spreadOver ht hitem
  unfold Check.distribute at hitem
  repeat' split at hitem
  · exact h.elts ht _ (List.of_mem_zip hitem).2
  · exact spread hitem
  · simp only [distributeAround, List.mem_append] at hitem
    rcases hitem with (hitem | hitem) | hitem
    · exact h.elts ht _ (List.mem_of_mem_take (List.of_mem_zip hitem).2)
    · obtain ⟨target, -, rfl⟩ := List.mem_map.1 hitem
      refine h.foldl_pushKnown (h.empty _) fun t ht' => ?_
      exact h.elts ht _ (List.mem_of_mem_take (List.mem_of_mem_drop ht'))
    · exact h.elts ht _ (List.mem_of_mem_drop (List.of_mem_zip hitem).2)
  · exact spread hitem
  · exact spread hitem
  · exact spread hitem

theorem elementAlternatives (ht : P t) : ∀ s ∈ t.elementType.alternatives.map (·.1), P s := by
  intro s hs
  obtain ⟨item, hitem, rfl⟩ := List.mem_map.1 hs
  exact h.alternatives (h.elementType ht) hitem

theorem withItem? {grown : Container Ty} {slice : Bool} {index value : Ty} (hc : P (.container c))
    (hindex : P index) (hvalue : P value) (hgrown : Check.withItem? c slice index value = some grown) :
    P (.container grown) := by
  unfold Check.withItem? at hgrown
  split at hgrown
  · split at hgrown
    · cases hgrown
      exact h.foldl_pushKnown hc (h.elementAlternatives hvalue)
    · cases hgrown
      exact h.pushKnown hc hvalue
  · cases hgrown
    exact h.pushPair hc hindex hvalue
  all_goals cases hgrown

theorem grown? {receiver grown : Ty} {method : String} {args : CallArgs} (hreceiver : P receiver)
    (hargs : ∀ t ∈ args.positional, P t) (hgrown : Check.grown? receiver method args = some grown) :
    P grown := by
  unfold Check.grown? at hgrown
  obtain ⟨c, hc, hgrown⟩ := Option.bind_eq_some_iff.1 hgrown
  have hc : P (.container c) := by
    cases receiver with
    | container model =>
      cases hc
      exact hreceiver
    | _ => cases hc
  have finish {model : Container Ty} (hmodel : P (.container model))
      (hgrown : (do
        let grown ← some model
        if (Ty.container grown).alike receiver then Option.none else some (Ty.container grown)) =
          some grown) : P grown := by
    rw [Option.bind_eq_bind, Option.bind_some] at hgrown
    split at hgrown
    · cases hgrown
    · exact Option.some.inj hgrown ▸ hmodel
  dsimp only at hgrown
  split at hgrown
  all_goals try rw [‹args.positional = _›] at hargs
  iterate 3 exact finish (h.pushKnown hc (hargs _ (by simp))) hgrown
  iterate 2
    exact finish (h.foldl_pushKnown hc (h.elementAlternatives (hargs _ (by simp)))) hgrown
  · split at hgrown
    · have hkind : c.kind = .dict := ‹_›
      exact finish (h.extended hc (hargs _ (by simp)) (hkind.trans (beq_iff_eq.1 ‹_›).symm)) hgrown
    · cases hgrown
  · exact finish (h.pushPair hc (hargs _ (by simp)) (hargs _ (by simp))) hgrown
  · cases hgrown

end Ty.Stable

end Credence

import Mathlib
import Credence.Arena.Basic

namespace Credence

theorem eq_of_sameNumber {x y : Float} (h : sameNumber x y = true) : x = y := by
  rcases Bool.or_eq_true _ _ ▸ h with h | h
  · exact Float.toBits_inj.1 (beq_iff_eq.1 h)
  · obtain ⟨hx, hy⟩ := Bool.and_eq_true_iff.1 h
    rw [Float.isNaN_eq_decide_eq_nan, decide_eq_true_eq] at hx hy
    rw [hx, hy]

theorem eq_of_zip {α : Type} {xs ys : List α} (hlength : xs.length = ys.length)
    (h : ∀ pair ∈ xs.zip ys, pair.1 = pair.2) : xs = ys := by
  refine List.ext_getElem hlength fun i hx hy => ?_
  have hi : i < (xs.zip ys).length := by
    rw [List.length_zip]
    omega
  have hpair := h _ (List.getElem_mem hi)
  rwa [List.getElem_zip] at hpair

theorem eq_of_listAgree {α : Type} {agree : α → α → Bool} {xs ys : List α} (h : listAgree agree xs ys = true)
    (hagree : ∀ x y, agree x y = true → x = y) : xs = ys := by
  obtain ⟨hlength, hall⟩ := Bool.and_eq_true_iff.1 h
  refine eq_of_zip (beq_iff_eq.1 hlength) fun pair hpair => ?_
  exact hagree _ _ (List.all_eq_true.1 hall pair hpair)

namespace Ty

section Members

variable {xs ys : List Ty} (hlength : xs.length = ys.length)
  (h : ((xs.zip ys).attach.all fun pair => pair.1.1.identical pair.1.2) = true)
include hlength h

theorem eq_of_identical_members (ih : ∀ x ∈ xs, ∀ y ∈ ys, x.identical y = true → x = y) : xs = ys := by
  refine eq_of_zip hlength fun pair hpair => ?_
  obtain ⟨hx, hy⟩ := List.of_mem_zip (a := pair.1) (b := pair.2) hpair
  exact ih _ hx _ hy (List.all_eq_true.1 h ⟨pair, hpair⟩ (List.mem_attach _ _))

end Members

theorem eq_of_identical {s t : Ty} (h : s.identical t = true) : s = t := by
  -- By induction on the size of the first.
  induction s using WellFounded.induction (measure (sizeOf : Ty → Nat)).wf generalizing t with
  | _ s ih =>
    rw [identical.eq_def] at h
    cases s with
    | container a =>
      cases t with
      | container b =>
        obtain ⟨kind, elts, values, probs⟩ := a
        obtain ⟨kind', elts', values', probs'⟩ := b
        simp only [Bool.and_eq_true] at h
        obtain ⟨⟨⟨⟨⟨hkind, helts⟩, hvalues⟩, hsame⟩, hsameValues⟩, hprobs⟩ := h
        obtain rfl := beq_iff_eq.1 hkind
        obtain rfl := eq_of_identical_members (beq_iff_eq.1 helts) hsame fun x hx y _ =>
          ih x (sizeOf_lt_of_mem_elts hx)
        obtain rfl := eq_of_identical_members (beq_iff_eq.1 hvalues) hsameValues fun x hx y _ =>
          ih x (sizeOf_lt_of_mem_values hx)
        obtain rfl := eq_of_listAgree hprobs fun _ _ => eq_of_sameNumber
        rfl
      | _ => cases h
    | union a =>
      cases t with
      | union b =>
        obtain ⟨elts, probs⟩ := a
        obtain ⟨elts', probs'⟩ := b
        simp only [Bool.and_eq_true] at h
        obtain ⟨⟨helts, hsame⟩, hprobs⟩ := h
        obtain rfl := eq_of_identical_members (beq_iff_eq.1 helts) hsame fun x hx y _ =>
          ih x (sizeOf_lt_of_mem_union hx)
        obtain rfl := eq_of_listAgree hprobs fun _ _ => eq_of_sameNumber
        rfl
      | _ => cases h
    | builtin a =>
      cases t with
      | builtin b =>
        have hsmaller := sizeOf_ret_lt a
        obtain ⟨name, params, ret⟩ := a
        obtain ⟨name', params', ret'⟩ := b
        simp only [Bool.and_eq_true] at h
        obtain ⟨⟨⟨hname, hparams⟩, hsame⟩, hsameRet⟩ := h
        obtain rfl := beq_iff_eq.1 hname
        obtain rfl := eq_of_identical_members (beq_iff_eq.1 hparams) hsame fun x hx y _ =>
          ih x (sizeOf_lt_of_mem_params hx)
        obtain rfl := ih ret hsmaller hsameRet
        rfl
      | _ => cases h
    | method object id =>
      cases t with
      | method object' id' =>
        obtain ⟨hobject, hid⟩ := Bool.and_eq_true_iff.1 h
        rw [beq_iff_eq.1 hobject, beq_iff_eq.1 hid]
      | _ => cases h
    | prim p =>
      cases t with
      | prim q => rw [beq_iff_eq.1 h]
      | _ => cases h
    | classObj id =>
      cases t with
      | classObj other => rw [beq_iff_eq.1 h]
      | _ => cases h
    | object id =>
      cases t with
      | object other => rw [beq_iff_eq.1 h]
      | _ => cases h
    | function id =>
      cases t with
      | function other => rw [beq_iff_eq.1 h]
      | _ => cases h
    | module id =>
      cases t with
      | module other => rw [beq_iff_eq.1 h]
      | _ => cases h
    | any =>
      cases t with
      | any => rfl
      | _ => cases h
    | undefined =>
      cases t with
      | undefined => rfl
      | _ => cases h

end Ty

theorem CallKey.eq_of_agrees {k l : CallKey} (h : k.agrees l = true) : k = l := by
  obtain ⟨arguments, captured⟩ := k
  obtain ⟨arguments', captured'⟩ := l
  obtain ⟨harguments, hcaptured⟩ := Bool.and_eq_true_iff.1 h
  have hsame : arguments = arguments' := eq_of_listAgree harguments fun x y hxy => by
    obtain ⟨hname, htype⟩ := Bool.and_eq_true_iff.1 hxy
    exact Prod.ext (beq_iff_eq.1 hname) (Ty.eq_of_identical htype)
  have hview : captured = captured' := eq_of_listAgree hcaptured fun x y hxy => by
    rcases x with _ | x <;> rcases y with _ | y
    · rfl
    · cases hxy
    · cases hxy
    · exact congrArg some (Ty.eq_of_identical hxy)
  rw [hsame, hview]

end Credence

import Credence.Proofs.Kinship
import Credence.Proofs.Operators
import Credence.Proofs.Results

namespace Credence

/-- A type that names no entries, with unions in normal form. -/
abbrev Ty.Closed (t : Ty) : Prop :=
  t.Sound fun _ => False

def Ty.isClosed (t : Ty) : Bool :=
  match t with
  | .any | .undefined | .prim _ => true
  | .container c =>
    (c.elts.attach.all fun ⟨t, _⟩ => t.isClosed) && c.values.attach.all fun ⟨t, _⟩ => t.isClosed
  | .union u => u.elts.attach.all fun ⟨t, _⟩ => t.isClosed
  | .builtin b => (b.params.attach.all fun ⟨t, _⟩ => t.isClosed) && b.ret.isClosed
  | .classObj _ | .object _ | .function _ | .method _ _ | .module _ => false
termination_by sizeOf t
decreasing_by
  · exact Ty.sizeOf_lt_of_mem_elts ‹_›
  · exact Ty.sizeOf_lt_of_mem_values ‹_›
  · exact Ty.sizeOf_lt_of_mem_union ‹_›
  · exact Ty.sizeOf_lt_of_mem_params ‹_›
  · exact Ty.sizeOf_ret_lt b

theorem Ty.Sound.closed_of_isClosed {has : Entry → Prop} {t : Ty} (h : t.Sound has) (hclosed : t.isClosed = true) :
    t.Closed := by
  have parts {l : List Ty} (ih : ∀ t ∈ l, t.isClosed = true → t.Closed)
      (hl : (l.attach.all fun ⟨t, _⟩ => t.isClosed) = true) : ∀ t ∈ l, t.Closed := fun t ht =>
    ih t ht (List.all_eq_true.1 hl ⟨t, ht⟩ (List.mem_attach _ _))
  induction h with
  | any => exact .any
  | undefined => exact .undefined
  | prim p => exact .prim p
  | container _ _ elts values =>
    rw [isClosed, Bool.and_eq_true] at hclosed
    exact .container (parts elts hclosed.1) (parts values hclosed.2)
  | union normal _ elts =>
    rw [isClosed] at hclosed
    exact .union normal (parts elts hclosed)
  | builtin _ _ params ret =>
    rw [isClosed, Bool.and_eq_true] at hclosed
    exact .builtin (parts params hclosed.1) (ret hclosed.2)
  | classObj | object | function | method | module =>
    rw [isClosed] at hclosed
    contradiction

namespace Arena

variable {s t l r : Ty}

theorem isSubtype_leaf_eq_of_closed (hs : s.Closed) (ht : t.Closed) (hsleaf : s.isLeaf = true)
    (htleaf : t.isLeaf = true) (a b : Arena) : b.isSubtype s t = a.isSubtype s t := by
  unfold isSubtype
  cases hs with
  | container | union => cases hsleaf
  | any | undefined | prim | builtin =>
    cases ht with
    | container | union => cases htleaf
    | any | undefined | prim | builtin => rfl
    | _ => contradiction
  | _ => contradiction

theorem isSubtype_eq_of_closed (hs : s.Closed) (ht : t.Closed) (a b : Arena) :
    b.isSubtype s t = a.isSubtype s t := by
  -- By induction on the size of the types.
  induction hn : sizeOf s + sizeOf t using Nat.strongRecOn generalizing s t with
  | _ n ih =>
    subst hn
    have hright (v : Union Ty) (hv : (Ty.union v).Closed) (hunion : s.isUnion = false)
        (hsize : ∀ y ∈ v.elts, sizeOf y < sizeOf t) :
        b.isSubtype s (.union v) = a.isSubtype s (.union v) := by
      apply isSubtype_union_right_congr hunion
      intro y hy
      have := hsize y hy
      exact ih _ (by omega) hs (hv.ofUnion y hy) rfl
    rcases Ty.kinds s with ⟨u, rfl⟩ | ⟨c, rfl⟩ | hsleaf
    · apply isSubtype_union_left_congr
      intro x hx
      have := Ty.sizeOf_lt_of_mem_union hx
      exact ih _ (by omega) (hs.ofUnion x hx) ht rfl
    all_goals rcases Ty.kinds t with ⟨v, rfl⟩ | ⟨d, rfl⟩ | htleaf
    · exact hright v ht rfl fun _ => Ty.sizeOf_lt_of_mem_union
    · apply isSubtype_container_congr
      · intro x hx y hy
        have := Ty.sizeOf_lt_of_mem_elts hx
        have := Ty.sizeOf_lt_of_mem_elts hy
        exact ih _ (by omega) (hs.elts x hx) (ht.elts y hy) rfl
      · intro x hx y hy
        have := Ty.sizeOf_lt_of_mem_values hx
        have := Ty.sizeOf_lt_of_mem_values hy
        exact ih _ (by omega) (hs.values x hx) (ht.values y hy) rfl
    · rw [isSubtype_container_leaf htleaf, isSubtype_container_leaf htleaf]
    · exact hright v ht (Ty.isUnion_leaf hsleaf) fun _ => Ty.sizeOf_lt_of_mem_union
    · rw [isSubtype_leaf_container hsleaf, isSubtype_leaf_container hsleaf]
    · exact isSubtype_leaf_eq_of_closed hs ht hsleaf htleaf a b

theorem hasUnknownBase_of_closed (ht : t.Closed) (a : Arena) : a.hasUnknownBase t = false := by
  cases ht with
  | object h => exact h.elim
  | _ => rfl

theorem combineSingle_eq_of_closed (hl : l.Closed) (hr : r.Closed) (op : BinaryOp) (a b : Arena) :
    b.combineSingle op l r = a.combineSingle op l r := by
  have hconsistent : b.isConsistent l r = a.isConsistent l r := by
    rw [isConsistent, isConsistent, isSubtype_eq_of_closed hl hr a b, isSubtype_eq_of_closed hr hl a b]
  rw [combineSingle_eq, combineSingle_eq]
  unfold combineOther combineConsistent
  simp only [hasUnknownBase_of_closed hl, hasUnknownBase_of_closed hr, hconsistent]

theorem combine_eq_of_closed (hl : l.Closed) (hr : r.Closed) (op : BinaryOp) (a b : Arena) :
    b.combine op l r = a.combine op l r := by
  -- By induction on the size of the operands.
  induction hn : sizeOf l + sizeOf r using Nat.strongRecOn generalizing l r with
  | _ n ih =>
    subst hn
    cases hknown : l.isUnknown || r.isUnknown with
    | true => rw [combine_of_isUnknown hknown, combine_of_isUnknown hknown]
    | false =>
      cases hunion : l.isUnion || r.isUnion with
      | false =>
        rw [combine_of_isUnion_eq_false hknown hunion, combine_of_isUnion_eq_false hknown hunion]
        exact combineSingle_eq_of_closed hl hr op a b
      | true =>
        have hpair (x : Ty × Float) (hx : x ∈ l.alternatives) (y : Ty × Float) (hy : y ∈ r.alternatives) :
            b.pairResult? op x y = a.pairResult? op x y := by
          have hsx := Ty.sizeOf_of_mem_alternatives hx
          have hsy := Ty.sizeOf_of_mem_alternatives hy
          have hlt : sizeOf x.1 + sizeOf y.1 < sizeOf l + sizeOf r := by
            rcases Bool.or_eq_true _ _ ▸ hunion with h | h
            · have := hsx.2 h
              have := hsy.1
              omega
            · have := hsx.1
              have := hsy.2 h
              omega
          unfold pairResult?
          rw [ih _ hlt (hl.alternatives hx) (hr.alternatives hy) rfl]
        have hpairs : b.pairResults op l r = a.pairResults op l r := by
          unfold pairResults
          exact List.flatMap_congr fun x hx => List.filterMap_congr fun y hy => hpair x hx y hy
        rw [combine_of_isUnion hknown hunion, combine_of_isUnion hknown hunion, hpairs]

theorem closed_of_within (h : s.Within t) (ht : t.Closed) : s.Closed := by
  induction h with
  | self => exact ht
  | union hmem _ ih => exact ih (ht.ofUnion _ hmem)

theorem readAttribute_arena_of_closed (ht : t.Closed) (a : Arena) (name : String) (confidence : Float) :
    (a.readAttribute t name confidence).arena = a := by
  refine readAttribute_of_single (I := (· = a)) (fun {s _ _} hs hstep ha => ?_) rfl confidence
  have hs := closed_of_within hs ht
  cases hstep with
  | none => exact ha
  | cls id h => cases h ▸ hs; contradiction
  | object id h => cases h ▸ hs; contradiction
  | miss id h => cases h ▸ hs; contradiction

theorem readSingle_of_closed (ht : t.Closed) (a b : Arena) (name : String) (confidence : Float) :
    (b.readSingle t name confidence).type = (a.readSingle t name confidence).type ∧
      (a.readSingle t name confidence).type.Closed := by
  have stable : Ty.Stable Ty.Closed := Ty.Sound.stable
  cases ht with
  | prim p =>
    unfold readSingle
    simp only
    split
    · exact ⟨rfl, stable.prim_member? ‹_›⟩
    · split
      · exact ⟨rfl, stable.specialCallable name⟩
      · split <;> exact ⟨rfl, .any⟩
  | container elts values =>
    unfold readSingle
    simp only
    split
    · exact ⟨rfl, stable.member? (.container elts values) ‹_›⟩
    · split
      · exact ⟨rfl, stable.specialCallable name⟩
      · exact ⟨rfl, .any⟩
  | any | undefined | builtin | union => exact ⟨rfl, .any⟩
  | _ => contradiction

theorem readAttribute_type_of_closed (ht : t.Closed) (a b : Arena) (name : String) (confidence : Float) :
    (b.readAttribute t name confidence).type = (a.readAttribute t name confidence).type ∧
      (a.readAttribute t name confidence).type.Closed := by
  -- By induction on the size of the type.
  induction t using WellFounded.induction (measure (sizeOf : Ty → Nat)).wf generalizing a b confidence with
  | _ t ih =>
    rw [readAttribute.eq_def, readAttribute.eq_def]
    split
    · exact ⟨rfl, .any⟩
    split
    · exact ⟨rfl, .prim _⟩
    split
    · rename_i u _
      have hfold := List.foldl_rel (l := u.items.attach)
        (f := fun (state : List Ty × List Float × Reading) item =>
          let next := readAttribute state.2.2.arena item.1.1 name item.1.2
          (state.1 ++ [next.type], state.2.1 ++ [item.1.2],
            { next with found := state.2.2.found || next.found
                        findings := state.2.2.findings ++ next.findings }))
        (g := fun (state : List Ty × List Float × Reading) item =>
          let next := readAttribute state.2.2.arena item.1.1 name item.1.2
          (state.1 ++ [next.type], state.2.1 ++ [item.1.2],
            { next with found := state.2.2.found || next.found
                        findings := state.2.2.findings ++ next.findings }))
        (a := ([], [], { type := .any, found := false, arena := b }))
        (b := ([], [], { type := .any, found := false, arena := a }))
        (r := fun state state' => state.1 = state'.1 ∧ state.2.1 = state'.2.1 ∧ ∀ t ∈ state'.1, t.Closed)
        ⟨rfl, rfl, fun _ h => absurd h List.not_mem_nil⟩ fun item _ state state' hstate => by
          have hmem := (List.of_mem_zip item.2).1
          obtain ⟨htypes, hprobs, hclosed⟩ := hstate
          have hnext := ih item.1.1 (Ty.sizeOf_lt_of_mem_union hmem) (ht.ofUnion _ hmem)
            state'.2.2.arena state.2.2.arena item.1.2
          refine ⟨?_, ?_, List.forall_mem_append.2 ⟨hclosed, List.forall_mem_singleton.2 hnext.2⟩⟩
          · simp only [htypes, hnext.1]
          · simp only [hprobs]
      obtain ⟨htypes, hprobs, hclosed⟩ := hfold
      simp only at htypes hprobs ⊢
      rw [htypes, hprobs]
      exact ⟨rfl, Ty.sound_oneOf _ hclosed⟩
    · exact readSingle_of_closed ht a b name confidence

theorem setAttribute_of_closed (ht : t.Closed) (a : Arena) (name : String) (value : Ty) :
    (a.setAttribute t name value).2 = a := by
  refine setAttribute_of_single (I := (· = a)) (fun {s _ _} hs hstep ha => ?_) rfl
  have hs := closed_of_within hs ht
  cases hstep with
  | none => exact ha
  | cls id h => cases h ▸ hs; contradiction
  | object id h => cases h ▸ hs; contradiction

theorem replaceAttribute_of_closed (ht : t.Closed) (a : Arena) (name : String) (value : Ty) :
    a.replaceAttribute t name value = a := by
  cases ht with
  | classObj h => exact h.elim
  | object h => exact h.elim
  | _ => rfl

end Arena

end Credence

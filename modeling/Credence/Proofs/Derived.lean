import Credence.Proofs.Preorder

namespace Credence.Arena

variable {a : Arena} {b c d : ClassId} {o : ObjectId} {s t : Ty}

theorem isSubclass_of_derives (h : a.Derives d c) (hc : a.isSubclass c b = true) : a.isSubclass d b = true := by
  obtain ⟨e, he, hname⟩ := isSubclass_iff.1 hc
  exact isSubclass_iff.2 ⟨e, h.trans he, hname⟩

/-- What is known and no union stands for an alternative, at some depth, that is no union. -/
theorem exists_within_of_isSubtype (hs : s.isUnion = false) (hknown : s.isUnknown = false)
    (h : a.isSubtype s t = true) : ∃ r, r.Within t ∧ r.isUnion = false ∧ a.isSubtype s r = true := by
  induction hsize : sizeOf t using Nat.strongRecOn generalizing t with
  | ind n ih =>
    cases t with
    | union u =>
      obtain hunknown | ⟨t, ht, hst⟩ := (isSubtype_union_right hs).1 h
      · exact absurd hunknown (Bool.eq_false_iff.1 hknown)
      · obtain ⟨r, hr, hru, hsr⟩ := ih _ (hsize ▸ Ty.sizeOf_lt_of_mem_union ht) hst rfl
        exact ⟨r, .union ht hr, hru, hsr⟩
    | _ => exact ⟨_, .self, rfl, h⟩

theorem isSubtype_classObj_iff (ht : t.isUnion = false) :
    a.isSubtype (.classObj c) t = true ↔ t.isUnknown = true ∨
      (∃ b, t = .classObj b ∧ a.isSubclass c b = true) ∨
        ∃ o, t = .object o ∧ a.isSubclass (a.classOf o) c = true := by
  cases t with
  | union => cases ht
  | _ => simp [isSubtype, Ty.isUnknown, Ty.isFunctionLike]

theorem isSubtype_object_iff_of_not_union (ht : t.isUnion = false) :
    a.isSubtype (.object o) t = true ↔ t.isUnknown = true ∨
      (∃ b, t = .classObj b ∧ a.isSubclass (a.classOf o) b = true) ∨
        ∃ o', t = .object o' ∧ a.isSubclass (a.classOf o) (a.classOf o') = true := by
  cases t with
  | union => cases ht
  | _ => simp [isSubtype, Ty.isUnknown, Ty.isFunctionLike]

theorem isSubtype_object_of_derives {o' : ObjectId} (h : a.Derives (a.classOf o') (a.classOf o))
    (hot : a.isSubtype (.object o) t = true) : a.isSubtype (.object o') t = true := by
  obtain ⟨r, hr, hru, hor⟩ := exists_within_of_isSubtype rfl rfl hot
  refine isSubtype_of_within_right rfl hr ((isSubtype_object_iff_of_not_union hru).2 ?_)
  refine ((isSubtype_object_iff_of_not_union hru).1 hor).imp_right (Or.imp ?_ ?_)
  · exact fun ⟨b, hb, hob⟩ => ⟨b, hb, isSubclass_of_derives h hob⟩
  · exact fun ⟨p, hp, hop⟩ => ⟨p, hp, isSubclass_of_derives h hop⟩

theorem isSubtype_classObj_of_derives (h : a.Derives d c) (hct : a.isSubtype (.classObj c) t = true) :
    a.isSubtype (.classObj d) t = true ∨
      ∃ o, (Ty.object o).Within t ∧ a.isSubclass (a.classOf o) c = true ∧
        a.isSubclass (a.classOf o) d = false := by
  obtain ⟨r, hr, hru, hcr⟩ := exists_within_of_isSubtype rfl rfl hct
  have hstands (hdr : a.isSubtype (.classObj d) r = true) : a.isSubtype (.classObj d) t = true :=
    isSubtype_of_within_right rfl hr hdr
  rcases (isSubtype_classObj_iff hru).1 hcr with hunknown | ⟨b, hb, hcb⟩ | ⟨o, rfl, hoc⟩
  · exact .inl (hstands (isSubtype_of_isUnknown_right hunknown))
  · exact .inl (hstands ((isSubtype_classObj_iff hru).2 (.inr (.inl ⟨b, hb, isSubclass_of_derives h hcb⟩))))
  · cases hod : a.isSubclass (a.classOf o) d with
    | false => exact .inr ⟨o, hr, hoc, hod⟩
    | true => exact .inl (hstands ((isSubtype_classObj_iff rfl).2 (.inr (.inr ⟨o, rfl, hod⟩))))

/-- Whatever an object stands for, the objects of derived classes do. Classes are tested against objects the wrong way
round, so what a class stands for a derived one does only if no object of a class in between is among it. -/
theorem isSubtype_of_derives (a : Arena) {c d : ClassId} (h : a.Derives d c) (t : Ty) :
    (a.isSubtype (.classObj c) t = true →
      a.isSubtype (.classObj d) t = true ∨
        ∃ o, (Ty.object o).Within t ∧ a.isSubclass (a.classOf o) c = true ∧
          a.isSubclass (a.classOf o) d = false) ∧
      ∀ o o' : ObjectId, a.classOf o = c → a.classOf o' = d →
        a.isSubtype (.object o) t = true → a.isSubtype (.object o') t = true := by
  refine ⟨isSubtype_classObj_of_derives h, ?_⟩
  intro o o' ho ho' hot
  subst ho ho'
  exact isSubtype_object_of_derives h hot

theorem derives_chain : chain.Derives ⟨2⟩ ⟨0⟩ := by
  have hlast : (⟨1⟩ : ClassId) ∈ (chain.classAt ⟨2⟩).bases := by decide
  have hmiddle : (⟨0⟩ : ClassId) ∈ (chain.classAt ⟨1⟩).bases := by decide
  exact .tail (.single hlast) hmiddle

/-- The last class of the chain and its object stand for a union in which the first class is. -/
theorem isSubtype_of_derives_chain :
    chain.Derives ⟨2⟩ ⟨0⟩ ∧
      chain.isSubtype (.classObj ⟨2⟩) (.union ⟨[.int, .union ⟨[.str, .classObj ⟨0⟩], []⟩], []⟩) = true ∧
      chain.isSubtype (.object ⟨2⟩) (.union ⟨[.int, .union ⟨[.str, .classObj ⟨0⟩], []⟩], []⟩) = true := by
  have hwithin : (Ty.classObj ⟨0⟩).Within (.union ⟨[.int, .union ⟨[.str, .classObj ⟨0⟩], []⟩], []⟩) :=
    .union (List.mem_cons_of_mem _ List.mem_cons_self) (.union (List.mem_cons_of_mem _ List.mem_cons_self) .self)
  have hnone (o : ObjectId) :
      ¬(Ty.object o).Within (.union ⟨[.int, .union ⟨[.str, .classObj ⟨0⟩], []⟩], []⟩) := by
    rintro (_ | ⟨hs, h⟩)
    simp only [List.mem_cons, List.not_mem_nil, or_false] at hs
    obtain rfl | rfl := hs
    · cases h
    · obtain _ | ⟨hs, h⟩ := h
      simp only [List.mem_cons, List.not_mem_nil, or_false] at hs
      obtain rfl | rfl := hs <;> cases h
  obtain ⟨hclass, hobject⟩ := isSubtype_of_derives chain derives_chain
    (.union ⟨[.int, .union ⟨[.str, .classObj ⟨0⟩], []⟩], []⟩)
  refine ⟨derives_chain, (hclass ?_).resolve_right fun ⟨o, ho, _⟩ => hnone o ho, hobject ⟨0⟩ ⟨2⟩ rfl rfl ?_⟩
  · exact isSubtype_of_within_right rfl hwithin (isSubtype_leaf_self rfl)
  · exact isSubtype_of_within_right rfl hwithin
      ((isSubtype_object_iff_of_not_union rfl).2 (.inr (.inl ⟨⟨0⟩, rfl, isSubclass_refl chain ⟨0⟩⟩)))

theorem le_of_derives_chain (h : chain.Derives c d) : d.val ≤ c.val := by
  induction h with
  | refl => exact Nat.le_refl _
  | @tail d b _ hb ih =>
    have hall : ∀ d : ClassId, ∀ b ∈ (chain.classAt d).bases, b.val ≤ d.val :=
      forall_bases_of_lt (by decide)
    exact Nat.le_trans (hall d b hb) ih

/-- The first class of the chain stands for the object in the middle, and the last one, derived from it, does not. -/
theorem not_isSubtype_of_derives_between :
    chain.NamesApart ∧ chain.Derives ⟨2⟩ ⟨0⟩ ∧
      chain.isSubtype (.classObj ⟨0⟩) (.object ⟨1⟩) = true ∧
      chain.isSubtype (.classObj ⟨2⟩) (.object ⟨1⟩) = false := by
  refine ⟨namesApart_chain, derives_chain, ?_, Bool.eq_false_iff.2 fun h => ?_⟩
  · have hbase : chain.Derives ⟨1⟩ ⟨0⟩ := .single (by decide : (⟨0⟩ : ClassId) ∈ (chain.classAt ⟨1⟩).bases)
    exact (isSubtype_classObj_iff rfl).2 (.inr (.inr ⟨⟨1⟩, rfl, isSubclass_iff.2 ⟨⟨0⟩, hbase, rfl⟩⟩))
  · obtain hunknown | ⟨b, hb, -⟩ | ⟨o, ho, hbelongs⟩ := (isSubtype_classObj_iff rfl).1 h
    · cases hunknown
    · cases hb
    · cases ho
      have hderives := (namesApart_chain.isSubclass_iff_derives (by decide) (by decide)).1 hbelongs
      exact absurd (le_of_derives_chain hderives) (by decide)

end Credence.Arena

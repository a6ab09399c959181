import Credence.Proofs.Keeping
import Credence.Proofs.Likeness

namespace Credence

namespace Ty

/-- The names that a value of a shape has by itself, apart from its members. -/
def ownName (t : Ty) (name : String) : Bool :=
  match t with
  | .prim _ | .container _ => Arena.isSpecialName name
  | .classObj _ =>
    ["__name__", "__qualname__", "__module__"].contains name || (Builtin.objectMethod? name).isSome
  | .object _ => name == "__class__" || (Builtin.objectMethod? name).isSome
  | .function _ | .method _ _ => true
  | .module _ => name == "__name__" || name == "__file__"
  | .any | .undefined | .builtin _ | .union _ => false

/-- The names that a value of a type can have by itself. Every value has a text. -/
def offers (t : Ty) (name : String) : Bool :=
  name == "__doc__" || t.parts.any (·.ownName name)

theorem offers_of_single {t : Ty} (ht : t.isUnion = false) (name : String) :
    t.offers name = (name == "__doc__" || t.ownName name) := by
  cases t with
  | union u => cases ht
  | _ => simp only [offers, parts, List.any_cons, List.any_nil, Bool.or_false]

end Ty

namespace Arena

variable {a b c : Arena} {t : Ty} {name : String}

theorem found_readClass (id : ClassId) (confidence : Float) :
    (a.readClass id name confidence).found =
      ((a.classLookup id name).1.isSome || (Ty.classObj id).ownName name) := by
  unfold readClass
  cases hown : ["__name__", "__qualname__", "__module__"].contains name with
  | true =>
    have hname : (Ty.classObj id).ownName name = true := by
      simp only [Ty.ownName, hown, Bool.true_or]
    rw [hname, Bool.or_true]
    rfl
  | false =>
    simp only [Ty.ownName, hown, Bool.false_or, Bool.false_eq_true, if_false]
    cases (a.classLookup id name).1 with
    | some slot => rfl
    | none =>
      cases Builtin.objectMethod? name with
      | some method => rfl
      | none =>
        simp only
        split <;> rfl

theorem found_readObject (id : ObjectId) (confidence : Float) :
    (a.readObject id name confidence).found =
      ((a.objectLookup id name).1.isSome || (Ty.object id).ownName name) := by
  unfold readObject
  cases hown : name == "__class__" with
  | true => simp [Ty.ownName, hown, hit]
  | false =>
    simp only [Ty.ownName, hown, Bool.false_or, Bool.false_eq_true, if_false]
    cases (a.objectLookup id name).1 with
    | some slot =>
      cases slot with
      | value t => rfl
      | function f =>
        simp only
        split <;> rfl
    | none =>
      cases Builtin.objectMethod? name with
      | some method => rfl
      | none =>
        simp only
        split <;> rfl

theorem found_of_single (ht : t.isUnion = false) (confidence : Float) :
    (a.readAttribute t name confidence).found = ((a.hasAttribute t name).1 || t.offers name) := by
  rw [readAttribute.eq_def, hasAttribute.eq_def, Ty.offers_of_single ht]
  cases hname : name == "__doc__" with
  | true =>
    simp only [if_true, Bool.true_or, Bool.or_true]
    split <;> rfl
  | false =>
    rw [Bool.false_or]
    cases t with
    | any => rfl
    | undefined => rfl
    | union u => cases ht
    | classObj id =>
      simp only [Ty.isUnknown, Bool.false_eq_true, if_false, readSingle]
      exact found_readClass id confidence
    | object id =>
      simp only [Ty.isUnknown, Bool.false_eq_true, if_false, readSingle]
      exact found_readObject id confidence
    | builtin b => rfl
    | function f =>
      simp only [Ty.isUnknown, Bool.false_eq_true, if_false, readSingle, Ty.ownName, Bool.or_true]
      split <;> rfl
    | method o f =>
      simp only [Ty.isUnknown, Bool.false_eq_true, if_false, readSingle, Ty.ownName, Bool.or_true]
      split <;> rfl
    | prim p =>
      simp only [Ty.isUnknown, Bool.false_eq_true, if_false, readSingle, Ty.ownName]
      cases p.member? name with
      | some member => rfl
      | none =>
        simp only [Option.isSome_none, Bool.false_or]
        cases isSpecialName name with
        | true => rfl
        | false =>
          simp only [Bool.false_eq_true, if_false]
          split <;> rfl
    | container c =>
      simp only [Ty.isUnknown, Bool.false_eq_true, if_false, readSingle, Ty.ownName]
      cases c.member? name with
      | some member => rfl
      | none =>
        simp only [Option.isSome_none, Bool.false_or]
        cases isSpecialName name <;> rfl
    | module id =>
      simp only [Ty.isUnknown, Bool.false_eq_true, if_false, readSingle, Ty.ownName, Table.contains]
      cases hown : (name == "__name__" || name == "__file__") with
      | true => simp [hit]
      | false =>
        simp only [Bool.false_eq_true, if_false, Bool.or_false]
        cases (a.moduleAt id).exports.get? name <;> rfl

theorem merging_entries (a : Arena) :
    Merging (fun b => b.objects = a.objects ∧ b.modules = a.modules) fun _ _ _ => True :=
  merging_of_keep fun _ _ _ h => h

structure ReadPast (a : Arena) (done : List Ty) (b : Arena) : Prop where
  follows : a.Follows b
  modules : b.modules = a.modules
  objects : ∀ id, Ty.object id ∉ done → b.objectAt id = a.objectAt id

namespace ReadPast

variable {done : List Ty}

theorem refl (a : Arena) : a.ReadPast [] a :=
  ⟨.refl a, rfl, fun _ _ => rfl⟩

theorem of_entries (h : a.ReadPast done b) (hfollows : a.Follows c)
    (hentries : c.objects = b.objects ∧ c.modules = b.modules) : a.ReadPast done c where
  follows := hfollows
  modules := hentries.2.trans h.modules
  objects id hid := by
    have hsame : c.objectAt id = b.objectAt id := by rw [objectAt, hentries.1, objectAt]
    exact hsame.trans (h.objects id hid)

theorem after_classLookup (h : a.ReadPast done b) (id : ClassId) (name : String) :
    a.ReadPast done (b.classLookup id name).2 := by
  have hsame := (merging_entries b).classLookup ⟨rfl, rfl⟩ id name
  exact h.of_entries (h.follows.after_classLookup id name) hsame

theorem after_objectLookup (h : a.ReadPast done b) (id : ObjectId) (name : String) :
    a.ReadPast done (b.objectLookup id name).2 := by
  have hsame := (merging_entries b).objectLookup ⟨rfl, rfl⟩ id name
  exact h.of_entries (h.follows.after_objectLookup id name) hsame

theorem putOverlay (h : a.ReadPast done b) {id : ObjectId} (hid : Ty.object id ∈ done) (name : String) (t : Ty) :
    a.ReadPast done (b.putOverlay id name t) where
  follows := h.follows.trans (.of_classes rfl)
  modules := h.modules
  objects other hother := by
    have hne : ¬(id = other ∧ other.val < b.objects.size) := by
      rintro ⟨rfl, -⟩
      exact hother hid
    rw [Arena.putOverlay, objectAt_modifyObject_eq, if_neg hne]
    exact h.objects other hother

theorem concat (h : a.ReadPast done b) (t : Ty) : a.ReadPast (done ++ [t]) b where
  follows := h.follows
  modules := h.modules
  objects id hid := h.objects id fun hdone => hid (List.mem_append_left _ hdone)

theorem step (h : a.ReadPast done b) (hstep : b.ReadStep t name c) : a.ReadPast (done ++ [t]) c := by
  have h := h.concat t
  cases hstep with
  | none => exact h
  | cls id _ => exact h.after_classLookup id name
  | object id _ => exact h.after_objectLookup id name
  | miss id ht =>
    apply (h.after_objectLookup id name).putOverlay
    rw [ht]
    exact List.mem_append_right _ List.mem_cons_self

theorem readAttribute (h : a.ReadPast done b) (ht : t.isUnion = false) (name : String) (confidence : Float) :
    a.ReadPast (done ++ [t]) (b.readAttribute t name confidence).arena := by
  rw [readAttribute.eq_def]
  split
  · exact h.concat t
  split
  · exact h.concat t
  split
  · cases ht
  · exact h.step (b.readStep_readSingle t name confidence)

theorem hasAttribute_eq (h : a.ReadPast done b) (ht : t.isUnion = false) (hnew : t ∉ done) (name : String) :
    (b.hasAttribute t name).1 = (a.hasAttribute t name).1 := by
  rw [hasAttribute.eq_def, hasAttribute.eq_def a]
  cases t with
  | union u => cases ht
  | classObj id => exact congrArg Option.isSome (h.follows.classLookup_eq id name)
  | object id => exact congrArg Option.isSome (h.follows.objectLookup_eq (h.objects id hnew) name)
  | module id =>
    have hmodule : b.moduleAt id = a.moduleAt id := by rw [moduleAt, h.modules, moduleAt]
    simp only [hmodule]
  | _ => rfl

theorem after_hasAttribute (h : a.ReadPast done b) (ht : t.isUnion = false) (name : String) :
    a.ReadPast done (b.hasAttribute t name).2 := by
  rw [hasAttribute.eq_def]
  cases t with
  | union u => cases ht
  | classObj id => exact h.after_classLookup id name
  | object id => exact h.after_objectLookup id name
  | _ => exact h

end ReadPast

variable {u : Union Ty}

theorem hasAttribute_union (hflat : ∀ t ∈ u.elts, t.isUnion = false) (name : String) :
    (a.hasAttribute (.union u) name).1 = u.elts.any fun t => (a.hasAttribute t name).1 := by
  rw [hasAttribute.eq_def]
  have hfold := foldl_of_done
    (f := fun (state : Bool × Arena) (item : { t : Ty // t ∈ u.elts }) =>
      if state.1 then (state.1, state.2) else hasAttribute state.2 item.1 name)
    (motive := fun done state =>
      state.1 = (done.map Subtype.val).any (fun t => (a.hasAttribute t name).1) ∧ a.ReadPast [] state.2)
    u.elts.attach (false, a) ⟨rfl, .refl a⟩
    (by
      rintro done item ⟨found, b⟩ ⟨hfound, hb⟩
      have hitem := hflat item.1 item.2
      dsimp only at hfound hb ⊢
      rw [List.map_append, List.any_append, ← hfound]
      cases found with
      | true => exact ⟨rfl, hb⟩
      | false =>
        refine ⟨?_, hb.after_hasAttribute hitem name⟩
        simpa using hb.hasAttribute_eq hitem List.not_mem_nil name)
  rw [List.attach_map_subtype_val] at hfold
  exact hfold.1

/-- A read finds what it finds on one of the alternatives. No two of them are the same object, so what a
missed read writes on an object does not matter to the others. -/
theorem found_union (hu : u.Normal) (hdoc : name ≠ "__doc__") (confidence : Float) :
    (a.readAttribute (.union u) name confidence).found =
      u.elts.any fun t => (a.hasAttribute t name).1 || t.offers name := by
  have hname : (name == "__doc__") = false := beq_eq_false_iff_ne.2 hdoc
  rw [readAttribute.eq_def]
  simp only [Ty.isUnknown, hname, Bool.false_eq_true, if_false]
  have hfold := foldl_of_done
    (f := fun (state : List Ty × List Float × Reading) (item : { p : Ty × Float // p ∈ u.items }) =>
      let next := readAttribute state.2.2.arena item.1.1 name item.1.2
      (state.1 ++ [next.type], state.2.1 ++ [item.1.2],
        { next with found := state.2.2.found || next.found
                    findings := state.2.2.findings ++ next.findings }))
    (motive := fun done state => (done.map (·.1.1)).Nodup →
      state.2.2.found = (done.map (·.1.1)).any (fun t => (a.hasAttribute t name).1 || t.offers name) ∧
        a.ReadPast (done.map (·.1.1)) state.2.2.arena)
    u.items.attach ([], [], { type := .any, found := false, arena := a }) (fun _ => ⟨rfl, .refl a⟩)
    (by
      rintro done item state hstate hnodup
      rw [List.map_append, List.map_singleton] at hnodup ⊢
      obtain ⟨hdone, -, hnew⟩ := List.nodup_append.1 hnodup
      obtain ⟨hfound, hpast⟩ := hstate hdone
      have hitem := hu.isUnion item.1.1 (List.of_mem_zip item.2).1
      have hfresh : item.1.1 ∉ done.map (·.1.1) := fun hmem => hnew _ hmem _ List.mem_cons_self rfl
      refine ⟨?_, hpast.readAttribute hitem name item.1.2⟩
      rw [List.any_append, ← hfound]
      simp only [found_of_single hitem, hpast.hasAttribute_eq hitem hfresh, List.any_cons, List.any_nil,
        Bool.or_false])
  have helts : u.items.attach.map (·.1.1) = u.elts := by
    have hmap : (u.items.attach.map Subtype.val).map (·.1) = u.elts := by
      rw [List.attach_map_subtype_val]
      exact List.map_fst_zip (Nat.le_of_eq hu.probs.symm)
    rwa [List.map_map] at hmap
  have hnodup : u.elts.Nodup := by
    refine hu.distinct.imp fun hne heq => ?_
    rw [heq, Ty.alike_refl] at hne
    cases hne
  rw [helts] at hfold
  exact (hfold hnodup).1

theorem found_readAttribute (ht : t.Normal) (confidence : Float) :
    (a.readAttribute t name confidence).found = ((a.hasAttribute t name).1 || t.offers name) := by
  cases t with
  | union u =>
    have hflat := ht.of_union.isUnion
    cases hname : name == "__doc__" with
    | true =>
      rw [readAttribute.eq_def, Ty.offers, hname, Bool.true_or, Bool.or_true]
      rfl
    | false =>
      rw [found_union ht.of_union (beq_eq_false_iff_ne.1 hname), hasAttribute_union hflat, Ty.offers, hname,
        Bool.false_or]
      have hsingle (s : Ty) (hs : s ∈ u.elts) : s.offers name = s.ownName name := by
        rw [Ty.offers_of_single (hflat s hs), hname, Bool.false_or]
      refine Bool.eq_iff_iff.2 ?_
      simp only [Ty.parts, List.any_eq_true, Bool.or_eq_true]
      constructor
      · rintro ⟨s, hs, hfound | hoffers⟩
        · exact .inl ⟨s, hs, hfound⟩
        · exact .inr ⟨s, hs, hsingle s hs ▸ hoffers⟩
      · rintro (⟨s, hs, hfound⟩ | ⟨s, hs, hown⟩)
        · exact ⟨s, hs, .inl hfound⟩
        · exact ⟨s, hs, .inr ((hsingle s hs).trans hown)⟩
  | _ => exact found_of_single rfl confidence

/-- A test is right about a read exactly if it announces the attribute or no value of the type has the name by
itself. It never announces too much. -/
theorem hasAttribute_predicts_iff (a : Arena) (t : { t : Ty // t.Built }) (name : String) (confidence : Float) :
    ((a.hasAttribute t.1 name).1 = true → (a.readAttribute t.1 name confidence).found = true) ∧
      ((a.hasAttribute t.1 name).1 = (a.readAttribute t.1 name confidence).found ↔
        ((a.hasAttribute t.1 name).1 = true ∨ t.1.offers name = false)) := by
  rw [found_readAttribute t.2.normal confidence]
  cases (a.hasAttribute t.1 name).1 with
  | true => exact ⟨fun _ => rfl, fun _ => .inl rfl, fun _ => rfl⟩
  | false =>
    rw [Bool.false_or]
    exact ⟨nofun, fun h => .inr h.symm, fun h => (h.resolve_left nofun).symm⟩

/-- Each number has a text, which a test does not announce. -/
theorem not_hasAttribute_doc :
    ¬∀ (a : Arena) (t : { t : Ty // t.Built }) (name : String) (confidence : Float),
      (a.hasAttribute t.1 name).1 = (a.readAttribute t.1 name confidence).found := by
  intro h
  have hint := h {} ⟨.int, .leaf rfl⟩ "__doc__" 1.0
  have hhas : (({} : Arena).hasAttribute .int "__doc__").1 = false := by
    rw [hasAttribute.eq_def]
    rfl
  have hread : (({} : Arena).readAttribute .int "__doc__" 1.0).found = true := by
    rw [readAttribute.eq_def]
    rfl
  rw [hhas, hread] at hint
  cases hint

end Arena
end Credence

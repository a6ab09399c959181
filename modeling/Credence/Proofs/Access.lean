import Credence.Arena.Attribute

namespace Credence

/-- A type is another one, or an alternative of it at some depth. -/
inductive Ty.Within (r : Ty) : Ty → Prop
  | self : Within r r
  | union {u : Union Ty} {s : Ty} (hs : s ∈ u.elts) (h : Within r s) : Within r (.union u)

/-- What holds at the start of a loop over a list and is carried on by each turn holds at its end. The
part of the list that is done is known at each turn. -/
theorem foldl_of_done {α σ : Type} {f : σ → α → σ} {motive : List α → σ → Prop} (items : List α) (start : σ)
    (init : motive [] start)
    (turn : ∀ done item state, motive done state → motive (done ++ [item]) (f state item)) :
    motive items (items.foldl f start) := by
  suffices ∀ done state, motive done state → motive (done ++ items) (items.foldl f state) from
    this [] start init
  induction items with
  | nil =>
    intro done state h
    rwa [List.append_nil]
  | cons item rest ih =>
    intro done state h
    have hrest := ih (done ++ [item]) (f state item) (turn done item state h)
    rwa [List.append_assoc] at hrest

theorem getD_modify {α : Type} (xs : Array α) (i j : Nat) (f : α → α) (d : α) :
    (xs.modify i f).getD j d = if i = j ∧ j < xs.size then f (xs.getD j d) else xs.getD j d := by
  simp only [Array.getD_eq_getD_getElem?, Array.getElem?_modify]
  by_cases h : i = j <;> by_cases hlt : j < xs.size <;> simp [h, hlt]

namespace Arena

variable {a b : Arena}

theorem classAt_modifyClass_eq (a : Arena) (id : ClassId) (f : ClassInfo → ClassInfo) (c : ClassId) :
    (a.modifyClass id f).classAt c =
      if id = c ∧ c.val < a.classes.size then f (a.classAt c) else a.classAt c := by
  obtain ⟨i⟩ := id
  obtain ⟨j⟩ := c
  simp only [ClassId.mk.injEq]
  exact getD_modify a.classes i j f default

theorem objectAt_modifyObject_eq (a : Arena) (id : ObjectId) (f : ObjectInfo → ObjectInfo) (o : ObjectId) :
    (a.modifyObject id f).objectAt o =
      if id = o ∧ o.val < a.objects.size then f (a.objectAt o) else a.objectAt o := by
  obtain ⟨i⟩ := id
  obtain ⟨j⟩ := o
  simp only [ObjectId.mk.injEq]
  exact getD_modify a.objects i j f default

theorem classAt_keepInherited (a : Arena) (id : ClassId) (merged : Table Slot) (c : ClassId) :
    (a.keepInherited id merged).classAt c =
      if id = c ∧ c.val < a.classes.size then { a.classAt c with inherited := some merged }
      else a.classAt c :=
  a.classAt_modifyClass_eq id (fun c => { c with inherited := some merged }) c

theorem bases_keepInherited (a : Arena) (id : ClassId) (merged : Table Slot) (c : ClassId) :
    ((a.keepInherited id merged).classAt c).bases = (a.classAt c).bases := by
  rw [classAt_keepInherited]
  split <;> rfl

/-- A property of the members that a class has from the first of its bases, in arenas of some kind: it holds
of what is kept, it is carried from base to base, and what has it can be kept. -/
structure Merging (I : Arena → Prop) (P : ClassId → List ClassId → Table Slot → Prop) : Prop where
  kept : ∀ {a : Arena} {id : ClassId} {merged : Table Slot}, I a →
    (a.classAt id).inherited = some merged → P id (a.classAt id).bases merged
  empty : ∀ id, P id [] .empty
  older : ∀ {a : Arena} {id base : ClassId} {bases : List ClassId} {merged above : Table Slot}, I a →
    base.val < id.val → P id bases merged → P base (a.classAt base).bases above →
    P id (bases ++ [base]) (addMissing (addMissing merged (a.classAt base).attributes) above)
  other : ∀ {id base : ClassId} {bases : List ClassId} {merged : Table Slot}, ¬base.val < id.val →
    P id bases merged → P id (bases ++ [base]) merged
  keep : ∀ {a : Arena} {id : ClassId} {merged : Table Slot}, I a → P id (a.classAt id).bases merged →
    I (a.keepInherited id merged)

namespace Merging

variable {I : Arena → Prop} {P : ClassId → List ClassId → Table Slot → Prop} (h : Merging I P)
include h

theorem inherited (ha : I a) (id : ClassId) :
    P id (a.classAt id).bases (a.inherited id).1 ∧ I (a.inherited id).2 ∧
      ∀ c, ((a.inherited id).2.classAt c).bases = (a.classAt c).bases := by
  -- By induction on the class, since only older bases count.
  induction id using WellFounded.induction (measure ClassId.val).wf generalizing a with
  | _ id ih =>
    rw [Arena.inherited]
    split
    · exact ⟨h.kept ha ‹_›, ha, fun _ => rfl⟩
    · obtain ⟨hmerged, hlast, hbases⟩ := foldl_of_done
        (f := fun (state : Table Slot × Arena) base =>
          if _h : base.val < id.val then
            let own := addMissing state.1 (state.2.classAt base).attributes
            let above := Arena.inherited state.2 base
            (addMissing own above.1, above.2)
          else state)
        (motive := fun bases state => P id bases state.1 ∧ I state.2 ∧
          ∀ c, (state.2.classAt c).bases = (a.classAt c).bases)
        (a.classAt id).bases (Table.empty, a) ⟨h.empty id, ha, fun _ => rfl⟩
        (by
          rintro done base state ⟨hmerged, hstate, hsame⟩
          dsimp only
          split
          · rename_i hlt
            obtain ⟨habove, hnext, hbases⟩ := ih base hlt hstate
            exact ⟨h.older hstate hlt hmerged habove, hnext, fun c => (hbases c).trans (hsame c)⟩
          · exact ⟨h.other ‹_› hmerged, hstate, hsame⟩)
      refine ⟨hmerged, h.keep hlast ?_, fun c => ?_⟩
      · rwa [hbases]
      · rw [bases_keepInherited, hbases]

end Merging

theorem merging_of_keep {I : Arena → Prop}
    (keep : ∀ (a : Arena) (id : ClassId) (merged : Table Slot), I a → I (a.keepInherited id merged)) :
    Merging I fun _ _ _ => True where
  kept _ _ := trivial
  empty _ := trivial
  older _ _ _ _ := trivial
  other _ _ := trivial
  keep ha _ := keep _ _ _ ha

theorem arena_classLookup (a : Arena) (id : ClassId) (name : String) :
    (a.classLookup id name).2 = a ∨ (a.classLookup id name).2 = (a.inherited id).2 := by
  unfold classLookup
  split
  · exact .inl rfl
  · exact .inr rfl

theorem arena_objectLookup (a : Arena) (id : ObjectId) (name : String) :
    (a.objectLookup id name).2 = a ∨ (a.objectLookup id name).2 = (a.inherited (a.classOf id)).2 := by
  unfold objectLookup
  split
  · exact .inl rfl
  · exact a.arena_classLookup _ name

namespace Merging

variable {I : Arena → Prop} {P : ClassId → List ClassId → Table Slot → Prop} (h : Merging I P)
include h

theorem classLookup (ha : I a) (id : ClassId) (name : String) : I (a.classLookup id name).2 := by
  rcases a.arena_classLookup id name with hsame | hmerged
  · rwa [hsame]
  · rw [hmerged]
    exact (h.inherited ha id).2.1

theorem objectLookup (ha : I a) (id : ObjectId) (name : String) : I (a.objectLookup id name).2 := by
  rcases a.arena_objectLookup id name with hsame | hmerged
  · rwa [hsame]
  · rw [hmerged]
    exact (h.inherited ha _).2.1

end Merging

/-- All that a read can do to an arena: it keeps what a class inherits, and after a miss on an object the
attribute is there. -/
inductive ReadStep (a : Arena) (t : Ty) (name : String) : Arena → Prop
  | none : ReadStep a t name a
  | cls (id : ClassId) (ht : t = .classObj id) : ReadStep a t name (a.classLookup id name).2
  | object (id : ObjectId) (ht : t = .object id) : ReadStep a t name (a.objectLookup id name).2
  | miss (id : ObjectId) (ht : t = .object id) :
    ReadStep a t name ((a.objectLookup id name).2.putOverlay id name .any)

theorem readStep_readClass (a : Arena) (id : ClassId) (name : String) (confidence : Float) :
    a.ReadStep (.classObj id) name (a.readClass id name confidence).arena := by
  unfold readClass
  split
  · exact .none
  · simp only
    repeat' split
    all_goals exact .cls id rfl

theorem readStep_readObject (a : Arena) (id : ObjectId) (name : String) (confidence : Float) :
    a.ReadStep (.object id) name (a.readObject id name confidence).arena := by
  unfold readObject
  simp only
  split
  · exact .none
  · repeat' split
    all_goals first | exact .object id rfl | exact .miss id rfl

theorem readStep_readSingle (a : Arena) (t : Ty) (name : String) (confidence : Float) :
    a.ReadStep t name (a.readSingle t name confidence).arena := by
  unfold readSingle
  cases t with
  | classObj id => exact a.readStep_readClass id name confidence
  | object id => exact a.readStep_readObject id name confidence
  | _ =>
    simp only
    repeat' split
    all_goals exact .none

theorem readAttribute_of_single {I : Arena → Prop} {t : Ty} {name : String}
    (single : ∀ {s : Ty} {a b : Arena}, s.Within t → a.ReadStep s name b → I a → I b) (ha : I a)
    (confidence : Float) : I (a.readAttribute t name confidence).arena := by
  -- By induction on its size.
  induction t using WellFounded.induction (measure (sizeOf : Ty → Nat)).wf generalizing a confidence with
  | _ t ih =>
    rw [readAttribute.eq_def]
    split
    · exact ha
    split
    · exact ha
    split
    · rename_i u _
      exact List.foldlRecOn u.items.attach
        (fun (state : List Ty × List Float × Reading) item =>
          let next := readAttribute state.2.2.arena item.1.1 name item.1.2
          (state.1 ++ [next.type], state.2.1 ++ [item.1.2],
            { next with found := state.2.2.found || next.found
                        findings := state.2.2.findings ++ next.findings }))
        (b := ([], [], { type := .any, found := false, arena := a }))
        (motive := fun state => I state.2.2.arena) ha fun state hstate item _ => by
          have hmem := (List.of_mem_zip item.2).1
          exact ih item.1.1 (Ty.sizeOf_lt_of_mem_union hmem) (fun hs => single (.union hmem hs)) hstate item.1.2
    · exact single .self (a.readStep_readSingle t name confidence) ha

inductive WriteStep (a : Arena) (t : Ty) (name : String) (value : Ty) : Arena → Prop
  | none : WriteStep a t name value a
  | cls (id : ClassId) (ht : t = .classObj id) : WriteStep a t name value
    ((a.classLookup id name).2.putMember id name
      (.ofType ((a.classLookup id name).2.merged ((a.classLookup id name).1.map Slot.type) value)))
  | object (id : ObjectId) (ht : t = .object id) : WriteStep a t name value
    ((a.objectLookup id name).2.putOverlay id name
      ((a.objectLookup id name).2.merged ((a.objectLookup id name).1.map Slot.type) value))

theorem setAttribute_of_single {I : Arena → Prop} {t value : Ty} {name : String}
    (single : ∀ {s : Ty} {a b : Arena}, s.Within t → a.WriteStep s name value b → I a → I b) (ha : I a) :
    I (a.setAttribute t name value).2 := by
  -- By induction on its size.
  induction t using WellFounded.induction (measure (sizeOf : Ty → Nat)).wf generalizing a with
  | _ t ih =>
    rw [setAttribute.eq_def]
    cases t with
    | union u =>
      refine List.foldlRecOn (motive := fun state : Except Cause Unit × Arena => I state.2) _ _ ha fun state hstate t _ => ?_
      obtain ⟨written, b⟩ := state
      simp only
      split
      · exact hstate
      · split
        · exact hstate
        · exact ih t.1 (Ty.sizeOf_lt_of_mem_union t.2) (fun hs => single (.union t.2 hs)) hstate
    | object id => exact single .self (.object id rfl) ha
    | classObj id => exact single .self (.cls id rfl) ha
    | prim | container | builtin | any | undefined | function | method | module => exact ha

theorem setAttribute_of_isSealed {a : Arena} {t : Ty} (ht : isSealed t = true) (name : String) (value : Ty) :
    a.setAttribute t name value = (.error (.cannotSetAttribute name (a.display t)), a) := by
  rw [setAttribute.eq_def]
  cases t with
  | prim | container | builtin => rfl
  | _ => cases ht

theorem setAttribute_ok (a : Arena) {t : Ty} (ht : isSealed t = false) (name : String) (value : Ty) :
    (a.setAttribute t name value).1 = .ok () := by
  -- By induction on the size of the type: a union leaves out the alternatives that take none.
  induction t using WellFounded.induction (measure (sizeOf : Ty → Nat)).wf generalizing a with
  | _ t ih =>
    rw [setAttribute.eq_def]
    cases t with
    | union u =>
      refine List.foldlRecOn (motive := fun state : Except Cause Unit × Arena => state.1 = .ok ()) _ _ rfl
        fun state hstate t _ => ?_
      obtain ⟨written, b⟩ := state
      simp only at hstate
      subst hstate
      simp only
      split
      · rfl
      · exact ih t.1 (Ty.sizeOf_lt_of_mem_union t.2) b (Bool.eq_false_iff.2 ‹_›)
    | prim | container | builtin => cases ht
    | any | undefined | object | classObj | function | method | module => rfl

/-- Builtin values refuse attributes, and they alone. -/
theorem setAttribute_eq_error_iff (a : Arena) (t : Ty) (name : String) (value : Ty) :
    (∃ cause, (a.setAttribute t name value).1 = .error cause) ↔ isSealed t = true := by
  constructor
  · rintro ⟨cause, hcause⟩
    cases hopen : isSealed t with
    | true => rfl
    | false =>
      rw [a.setAttribute_ok hopen] at hcause
      cases hcause
  · intro hsealed
    exact ⟨_, congrArg Prod.fst (setAttribute_of_isSealed hsealed name value)⟩

end Arena

end Credence

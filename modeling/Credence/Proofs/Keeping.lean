import Credence.Proofs.Lineage

namespace Credence.Arena

variable {a b c : Arena}

/-- The member that a class has from its bases: what is kept tells it, or else the bases in turn. -/
def above (a : Arena) (id : ClassId) (name : String) : Option Slot :=
  match (a.classAt id).inherited with
  | some merged => merged.get? name
  | none => (a.classAt id).bases.findSome? fun base =>
    if _h : base.val < id.val then ((a.classAt base).attributes.get? name).or (a.above base name) else none
termination_by id.val

def aboveThrough (a : Arena) (id : ClassId) (bases : List ClassId) (name : String) : Option Slot :=
  bases.findSome? fun base =>
    if base.val < id.val then ((a.classAt base).attributes.get? name).or (a.above base name) else none

theorem above_of_kept {id : ClassId} {merged : Table Slot} (h : (a.classAt id).inherited = some merged)
    (name : String) : a.above id name = merged.get? name := by
  rw [above, h]

theorem above_of_open {id : ClassId} (h : (a.classAt id).inherited = none) (name : String) :
    a.above id name = a.aboveThrough id (a.classAt id).bases name := by
  rw [above, h]
  rfl

theorem aboveThrough_concat (id base : ClassId) (bases : List ClassId) (name : String) :
    a.aboveThrough id (bases ++ [base]) name =
      (a.aboveThrough id bases name).or
        (if base.val < id.val then ((a.classAt base).attributes.get? name).or (a.above base name) else none) := by
  rw [aboveThrough, List.findSome?_append, List.findSome?_singleton]
  rfl

/-- More may be kept than before, but only what would have been found. -/
structure Follows (a b : Arena) : Prop where
  attributes : ∀ id, (b.classAt id).attributes = (a.classAt id).attributes
  bases : ∀ id, (b.classAt id).bases = (a.classAt id).bases
  kept : ∀ id merged, (b.classAt id).inherited = some merged → ∀ name, merged.get? name = a.above id name
  still : ∀ id, (b.classAt id).inherited = none → (a.classAt id).inherited = none

namespace Follows

theorem refl (a : Arena) : a.Follows a where
  attributes _ := rfl
  bases _ := rfl
  kept _ _ h name := (above_of_kept h name).symm
  still _ h := h

theorem of_classes (h : b.classes = a.classes) : a.Follows b := by
  have hsame (id : ClassId) : b.classAt id = a.classAt id := by rw [classAt, h, classAt]
  constructor
  case attributes => exact fun id => congrArg ClassInfo.attributes (hsame id)
  case bases => exact fun id => congrArg ClassInfo.bases (hsame id)
  case kept => exact fun id merged hkept name => (above_of_kept (hsame id ▸ hkept) name).symm
  case still => exact fun id hopen => hsame id ▸ hopen

theorem above_eq (h : a.Follows b) (id : ClassId) (name : String) : b.above id name = a.above id name := by
  -- By induction on the class, since only older bases count.
  induction id using WellFounded.induction (measure ClassId.val).wf with
  | _ id ih =>
    cases hkept : (b.classAt id).inherited with
    | some merged => rw [above_of_kept hkept, h.kept id merged hkept]
    | none =>
      rw [above_of_open hkept, above_of_open (h.still id hkept), h.bases id, aboveThrough, aboveThrough]
      congr 1
      funext base
      by_cases hlt : base.val < id.val
      · rw [if_pos hlt, if_pos hlt, h.attributes base, ih base hlt]
      · rw [if_neg hlt, if_neg hlt]

theorem trans (h : a.Follows b) (k : b.Follows c) : a.Follows c where
  attributes id := (k.attributes id).trans (h.attributes id)
  bases id := (k.bases id).trans (h.bases id)
  kept id merged hkept name := (k.kept id merged hkept name).trans (h.above_eq id name)
  still id hopen := h.still id (k.still id hopen)

theorem keepInherited (h : a.Follows b) {id : ClassId} {merged : Table Slot}
    (hmerged : ∀ name, merged.get? name = a.above id name) : a.Follows (b.keepInherited id merged) := by
  constructor
  case bases => exact fun c => (b.bases_keepInherited id merged c).trans (h.bases c)
  case attributes =>
    intro c
    rw [classAt_keepInherited]
    split
    · exact h.attributes c
    · exact h.attributes c
  case kept =>
    intro c kept hkept
    rw [classAt_keepInherited] at hkept
    split at hkept
    · rename_i hc
      obtain ⟨rfl, -⟩ := hc
      cases hkept
      exact hmerged
    · exact h.kept c kept hkept
  case still =>
    intro c hopen
    rw [classAt_keepInherited] at hopen
    split at hopen
    · cases hopen
    · exact h.still c hopen

theorem inherited (h : a.Follows b) (id : ClassId) :
    (∀ name, (b.inherited id).1.get? name = a.above id name) ∧ a.Follows (b.inherited id).2 := by
  -- By induction on the class, and on its bases in turn.
  induction id using WellFounded.induction (measure ClassId.val).wf generalizing b with
  | _ id ih =>
    rw [Arena.inherited]
    split
    · rename_i merged hkept
      exact ⟨h.kept id merged hkept, h⟩
    · rename_i hopen
      obtain ⟨hdone, hlast⟩ := foldl_of_done
        (f := fun (state : Table Slot × Arena) base =>
          if _h : base.val < id.val then
            let own := addMissing state.1 (state.2.classAt base).attributes
            let above := Arena.inherited state.2 base
            (addMissing own above.1, above.2)
          else state)
        (motive := fun bases state =>
          (∀ name, state.1.get? name = a.aboveThrough id bases name) ∧ a.Follows state.2)
        (b.classAt id).bases (Table.empty, b) ⟨fun _ => rfl, h⟩
        (by
          rintro done base state ⟨hdone, hstate⟩
          dsimp only
          split
          · rename_i hlt
            obtain ⟨habove, hnext⟩ := ih base hlt hstate
            refine ⟨fun name => ?_, hnext⟩
            rw [get?_addMissing, get?_addMissing, Option.or_assoc, aboveThrough_concat, if_pos hlt, hdone,
              habove, hstate.attributes]
          · rename_i hnot
            refine ⟨fun name => ?_, hstate⟩
            rw [aboveThrough_concat, if_neg hnot, Option.or_none, hdone])
      have hopen : (a.classAt id).inherited = none := h.still id hopen
      have hall (name : String) : a.aboveThrough id (b.classAt id).bases name = a.above id name := by
        rw [h.bases id, above_of_open hopen]
      refine ⟨fun name => (hdone name).trans (hall name), hlast.keepInherited fun name => ?_⟩
      exact (hdone name).trans (hall name)

variable (h : a.Follows b)
include h

theorem after_classLookup (id : ClassId) (name : String) : a.Follows (b.classLookup id name).2 := by
  rcases b.arena_classLookup id name with hsame | hmerged
  · rwa [hsame]
  · rw [hmerged]
    exact (h.inherited id).2

theorem after_objectLookup (id : ObjectId) (name : String) : a.Follows (b.objectLookup id name).2 := by
  rcases b.arena_objectLookup id name with hsame | hmerged
  · rwa [hsame]
  · rw [hmerged]
    exact (h.inherited _).2

theorem get?_inherited (id : ClassId) (name : String) :
    (b.inherited id).1.get? name = (a.inherited id).1.get? name := by
  rw [(h.inherited id).1 name, ((refl a).inherited id).1 name]

theorem classLookup_eq (id : ClassId) (name : String) :
    (b.classLookup id name).1 = (a.classLookup id name).1 := by
  unfold Arena.classLookup
  rw [h.attributes id]
  cases (a.classAt id).attributes.get? name with
  | some slot => rfl
  | none => exact h.get?_inherited id name

theorem objectLookup_eq {id : ObjectId} (hobject : b.objectAt id = a.objectAt id) (name : String) :
    (b.objectLookup id name).1 = (a.objectLookup id name).1 := by
  unfold Arena.objectLookup classOf
  rw [hobject]
  cases (a.objectAt id).overlay.get? name with
  | some t => rfl
  | none => exact h.classLookup_eq _ name

end Follows

end Credence.Arena

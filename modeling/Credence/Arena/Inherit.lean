import Credence.Arena.Basic

namespace Credence.Arena

def addMissing (merged slots : Table Slot) : Table Slot :=
  slots.entries.foldl (fun merged entry => merged.insertNew entry.1 entry.2) merged

def keepInherited (a : Arena) (id : ClassId) (merged : Table Slot) : Arena :=
  { a with classes := a.classes.modify id.val fun c => { c with inherited := some merged } }

/-- The members that a class has from its bases: of each base in turn its own and then what it
inherits, the first of a name counting. A base must be older than the class. -/
def inherited (a : Arena) (id : ClassId) : Table Slot × Arena :=
  match (a.classAt id).inherited with
  | some merged => (merged, a)
  | none =>
    let result := (a.classAt id).bases.foldl (fun state base =>
      if _h : base.val < id.val then
        let own := addMissing state.1 (state.2.classAt base).attributes
        let above := inherited state.2 base
        (addMissing own above.1, above.2)
      else state) (Table.empty, a)
    (result.1, result.2.keepInherited id result.1)
termination_by id.val

def classLookup (a : Arena) (id : ClassId) (name : String) : Option Slot × Arena :=
  match (a.classAt id).attributes.get? name with
  | some slot => (some slot, a)
  | none =>
    let (merged, a) := a.inherited id
    (merged.get? name, a)

/-- A member of an object: written on it, or else one of its class. -/
def objectLookup (a : Arena) (id : ObjectId) (name : String) : Option Slot × Arena :=
  match (a.objectAt id).overlay.get? name with
  | some t => (some (.value t), a)
  | none => a.classLookup (a.classOf id) name

def unseen (a : Arena) (seen : List ClassId) : Nat :=
  (List.range a.classes.size).countP fun i => !seen.contains ⟨i⟩

theorem bases_of_size_le {a : Arena} {id : ClassId} (h : a.classes.size ≤ id.val) :
    (a.classAt id).bases = [] := by
  rw [classAt, Array.getD_eq_getD_getElem?, Array.getElem?_eq_none h]
  rfl

theorem unseen_cons_le (a : Arena) (id : ClassId) (seen : List ClassId) :
    a.unseen (id :: seen) ≤ a.unseen seen := by
  refine List.countP_mono_left fun i _ h => ?_
  simp only [List.contains_cons, Bool.not_or, Bool.and_eq_true] at h
  exact h.2

theorem countP_lt_of_mem {α : Type} {p q : α → Bool} {x : α} {l : List α}
    (hpq : ∀ y, p y → q y) (hx : x ∈ l) (hp : ¬p x) (hq : q x) : l.countP p < l.countP q := by
  induction l with
  | nil => simp at hx
  | cons y rest ih =>
    rcases List.mem_cons.1 hx with rfl | hx
    · rw [List.countP_cons_of_neg hp, List.countP_cons_of_pos hq]
      exact Nat.lt_succ_of_le (List.countP_mono_left fun z _ => hpq z)
    · have := ih hx
      by_cases hy : p y
      · rw [List.countP_cons_of_pos hy, List.countP_cons_of_pos (hpq y hy)]
        omega
      · rw [List.countP_cons_of_neg hy]
        exact Nat.lt_of_lt_of_le this (List.Sublist.countP_le (List.sublist_cons_self y rest))

theorem unseen_cons_lt {a : Arena} {id : ClassId} {seen : List ClassId}
    (hlt : id.val < a.classes.size) (hs : seen.contains id = false) :
    a.unseen (id :: seen) < a.unseen seen := by
  refine countP_lt_of_mem (x := id.val) ?_ (List.mem_range.2 hlt) ?_ ?_
  · intro i h
    simp only [List.contains_cons, Bool.not_or, Bool.and_eq_true] at h
    exact h.2
  · simp
  · change (!seen.contains id) = true
    rw [hs]
    rfl

/-- The classes that can be reached from the pending ones and are not seen yet, each once. -/
def collectAncestors (a : Arena) (seen : List ClassId) : List ClassId → List ClassId
  | [] => []
  | id :: pending =>
    if _h : seen.contains id then a.collectAncestors seen pending
    else id :: a.collectAncestors (id :: seen) ((a.classAt id).bases.reverse ++ pending)
termination_by pending => (a.unseen seen, pending.length)
decreasing_by
  · exact Prod.Lex.right _ (by simp)
  · by_cases hlt : id.val < a.classes.size
    · exact Prod.Lex.left _ _ (unseen_cons_lt hlt (by simpa using _h))
    · rw [bases_of_size_le (Nat.le_of_not_lt hlt)]
      rcases Nat.lt_or_eq_of_le (unseen_cons_le a id seen) with h | h
      · exact Prod.Lex.left _ _ h
      · rw [h]
        exact Prod.Lex.right _ (by simp)

def ancestors (a : Arena) (id : ClassId) : List ClassId :=
  a.collectAncestors [] [id]

def ancestorNames (a : Arena) (id : ClassId) : List String :=
  (a.ancestors id).map a.className

/-- A class is a subclass of those that bear the name of one of its ancestors. -/
def isSubclass (a : Arena) (sub sup : ClassId) : Bool :=
  sub == sup || (a.ancestorNames sub).contains (a.className sup)

end Credence.Arena

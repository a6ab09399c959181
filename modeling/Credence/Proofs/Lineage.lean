import Credence.Proofs.Access

namespace Credence

namespace Table

variable {α : Type}

theorem get?_insertNew (t : Table α) (name other : String) (value : α) :
    (t.insertNew name value).get? other =
      (t.get? other).or (if other == name then some value else none) := by
  unfold insertNew contains
  by_cases hname : other = name
  · subst hname
    cases hold : t.get? other with
    | none => simp
    | some old => simp [hold]
  · have hother : (other == name) = false := beq_eq_false_iff_ne.2 hname
    cases hold : t.get? name with
    | none => simp [hother]
    | some old => simp [hother]

end Table

namespace Arena

variable {a b : Arena}

theorem get?_addMissing (merged slots : Table Slot) (name : String) :
    (addMissing merged slots).get? name = (merged.get? name).or (slots.get? name) := by
  obtain ⟨entries⟩ := slots
  change (entries.foldl _ merged).get? name = (merged.get? name).or (entries.lookup name)
  induction entries generalizing merged with
  | nil => exact (Option.or_none ..).symm
  | cons entry rest ih =>
    rw [List.foldl_cons, ih, Table.get?_insertNew, Option.or_assoc, List.lookup_cons]
    cases name == entry.1 <;> rfl

/-- The classes on the walk for a member of a class: the class, and then those on the walk from each of its
bases. A base that is not older than the class does not count. -/
def lineage (a : Arena) (id : ClassId) : List ClassId :=
  id :: (a.classAt id).bases.flatMap fun base => if _h : base.val < id.val then a.lineage base else []
termination_by id.val

/-- The part of the walk that goes through some bases of a class. -/
def lineageAbove (a : Arena) (id : ClassId) (bases : List ClassId) : List ClassId :=
  bases.flatMap fun base => if base.val < id.val then a.lineage base else []

def firstSlot (a : Arena) (name : String) (classes : List ClassId) : Option Slot :=
  classes.findSome? fun c => (a.classAt c).attributes.get? name

/-- The member of a class by a walk through its bases. -/
def search (a : Arena) (id : ClassId) (name : String) : Option Slot :=
  a.firstSlot name (a.lineage id)

theorem lineage_eq (a : Arena) (id : ClassId) :
    a.lineage id = id :: a.lineageAbove id (a.classAt id).bases := by
  rw [lineage]
  rfl

theorem firstSlot_append (name : String) (xs ys : List ClassId) :
    a.firstSlot name (xs ++ ys) = (a.firstSlot name xs).or (a.firstSlot name ys) :=
  List.findSome?_append

theorem search_eq (a : Arena) (id : ClassId) (name : String) :
    a.search id name =
      ((a.classAt id).attributes.get? name).or
        (a.firstSlot name (a.lineageAbove id (a.classAt id).bases)) := by
  rw [search, lineage_eq, firstSlot, List.findSome?_cons]
  cases (a.classAt id).attributes.get? name <;> rfl

theorem firstSlot_concat (id base : ClassId) (bases : List ClassId) (name : String) :
    a.firstSlot name (a.lineageAbove id (bases ++ [base])) =
      (a.firstSlot name (a.lineageAbove id bases)).or
        (if base.val < id.val then a.search base name else none) := by
  rw [lineageAbove, List.flatMap_append, List.flatMap_singleton, firstSlot_append]
  congr 1
  split <;> rfl

/-- The slots of a table are those that a walk through some bases of a class finds. -/
def Gathers (a : Arena) (id : ClassId) (bases : List ClassId) (merged : Table Slot) : Prop :=
  ∀ name, merged.get? name = a.firstSlot name (a.lineageAbove id bases)

/-- Only what classes keep of their bases may differ, and where something is kept the walk finds it. -/
structure Warm (a b : Arena) : Prop where
  attributes : ∀ id, (b.classAt id).attributes = (a.classAt id).attributes
  bases : ∀ id, (b.classAt id).bases = (a.classAt id).bases
  objects : b.objects = a.objects
  kept : ∀ id merged, (b.classAt id).inherited = some merged → a.Gathers id (a.classAt id).bases merged

def Cold (a : Arena) : Prop :=
  ∀ id, (a.classAt id).inherited = none

theorem Cold.warm (h : a.Cold) : a.Warm a where
  attributes _ := rfl
  bases _ := rfl
  objects := rfl
  kept id merged hkept := by
    rw [h id] at hkept
    cases hkept

theorem merging_warm (a : Arena) : Merging a.Warm a.Gathers where
  kept {b id merged} h hkept := by
    rw [h.bases]
    exact h.kept id merged hkept
  empty _ _ := rfl
  older {b id base bases merged above} h hlt hmerged habove := by
    intro name
    have hbase : above.get? name = a.firstSlot name (a.lineageAbove base (a.classAt base).bases) :=
      h.bases base ▸ habove name
    rw [get?_addMissing, get?_addMissing, Option.or_assoc, firstSlot_concat, if_pos hlt, search_eq, hmerged,
      h.attributes, hbase]
  other {id base bases merged} hnot hmerged := by
    intro name
    rw [firstSlot_concat, if_neg hnot, Option.or_none, hmerged]
  keep {b id merged} h hmerged := by
    constructor
    case objects => exact h.objects
    case bases => exact fun c => (b.bases_keepInherited id merged c).trans (h.bases c)
    case attributes =>
      intro c
      rw [classAt_keepInherited]
      split
      · exact h.attributes c
      · exact h.attributes c
    case kept =>
      intro c kept hkept
      rw [classAt_keepInherited] at hkept
      split at hkept
      · rename_i hc
        obtain ⟨rfl, -⟩ := hc
        cases hkept
        exact h.bases id ▸ hmerged
      · exact h.kept c kept hkept

namespace Warm

variable (h : a.Warm b)
include h

theorem get?_inherited (id : ClassId) (name : String) :
    (b.inherited id).1.get? name = a.firstSlot name (a.lineageAbove id (a.classAt id).bases) := by
  have hmerged := ((merging_warm a).inherited h id).1 name
  rwa [h.bases] at hmerged

theorem classLookup_eq (id : ClassId) (name : String) : (b.classLookup id name).1 = a.search id name := by
  rw [search_eq, ← h.attributes id]
  unfold classLookup
  cases (b.classAt id).attributes.get? name with
  | some slot => rfl
  | none => exact h.get?_inherited id name

theorem objectLookup_eq (id : ObjectId) (name : String) :
    (b.objectLookup id name).1 =
      (((a.objectAt id).overlay.get? name).map Slot.value).or (a.search (a.classOf id) name) := by
  have hobject : b.objectAt id = a.objectAt id := by rw [objectAt, h.objects, objectAt]
  unfold objectLookup classOf
  rw [hobject]
  cases (a.objectAt id).overlay.get? name with
  | some t => rfl
  | none => exact h.classLookup_eq _ name

end Warm

inductive Query where
  | inherited (id : ClassId)
  | classMember (id : ClassId) (name : String)
  | objectMember (id : ObjectId) (name : String)

def Query.run (a : Arena) : Query → Arena
  | inherited id => (a.inherited id).2
  | classMember id name => (a.classLookup id name).2
  | objectMember id name => (a.objectLookup id name).2

theorem Warm.run (h : a.Warm b) (query : Query) : a.Warm (query.run b) := by
  cases query with
  | inherited id => exact ((merging_warm a).inherited h id).2.1
  | classMember id name => exact (merging_warm a).classLookup h id name
  | objectMember id name => exact (merging_warm a).objectLookup h id name

theorem Cold.warm_run (h : a.Cold) (queries : List Query) : a.Warm (queries.foldl Query.run a) := by
  -- By induction on the questions, of which each keeps only what the walk finds.
  refine List.foldlRecOn queries Query.run h.warm ?_
  intro b hwarm query _
  exact hwarm.run query

/-- Whatever was looked up before, a member of a class is what the walk through its bases finds first, and a
member of an object is what is written on it or else that member of its class. -/
theorem lookups_eq_search (a : Arena) (h : a.Cold) (queries : List Query) :
    (∀ id name, ((queries.foldl Query.run a).classLookup id name).1 = a.search id name) ∧
      (∀ id name, ((queries.foldl Query.run a).objectLookup id name).1 =
        (((a.objectAt id).overlay.get? name).map Slot.value).or (a.search (a.classOf id) name)) ∧
      ∀ id name, ((queries.foldl Query.run a).inherited id).1.get? name =
        a.firstSlot name (a.lineageAbove id (a.classAt id).bases) := by
  have hwarm := h.warm_run queries
  exact ⟨hwarm.classLookup_eq, hwarm.objectLookup_eq, hwarm.get?_inherited⟩

/-- Two classes with a base in common, a class below both, and an object of that. -/
def diamond : Arena where
  classes := #[
    { name := some "A", attributes := ⟨[("x", .value .int)]⟩ },
    { name := some "B", bases := [⟨0⟩] },
    { name := some "C", bases := [⟨0⟩], attributes := ⟨[("x", .value .str)]⟩ },
    { name := some "D", bases := [⟨1⟩, ⟨2⟩] }]
  objects := #[{ cls := ⟨3⟩, overlay := ⟨[("y", .bool)]⟩ }]

theorem cold_diamond : diamond.Cold
  | ⟨0⟩ | ⟨1⟩ | ⟨2⟩ | ⟨3⟩ => rfl
  | ⟨_ + 4⟩ => rfl

/-- The walk gets to the base in common through the first class, before it gets to the second one. -/
theorem lineage_diamond : diamond.lineage ⟨3⟩ = [⟨3⟩, ⟨1⟩, ⟨0⟩, ⟨2⟩, ⟨0⟩] := by
  have hA : diamond.lineage ⟨0⟩ = [⟨0⟩] := diamond.lineage_eq ⟨0⟩
  have hB : diamond.lineage ⟨1⟩ = [⟨1⟩, ⟨0⟩] := by
    rw [lineage_eq, show (diamond.classAt ⟨1⟩).bases = [⟨0⟩] from rfl]
    simp [lineageAbove, hA]
  have hC : diamond.lineage ⟨2⟩ = [⟨2⟩, ⟨0⟩] := by
    rw [lineage_eq, show (diamond.classAt ⟨2⟩).bases = [⟨0⟩] from rfl]
    simp [lineageAbove, hA]
  rw [lineage_eq, show (diamond.classAt ⟨3⟩).bases = [⟨1⟩, ⟨2⟩] from rfl]
  simp [lineageAbove, hB, hC]

theorem search_diamond : diamond.search ⟨3⟩ "x" = some (.value .int) := by
  rw [search, lineage_diamond]
  rfl

theorem lookups_diamond :
    diamond.Cold ∧
      (([.inherited ⟨2⟩, .objectMember ⟨0⟩ "z"].foldl Query.run diamond).classLookup ⟨3⟩ "x").1 =
        some (.value .int) ∧
      (([.inherited ⟨2⟩, .objectMember ⟨0⟩ "z"].foldl Query.run diamond).objectLookup ⟨0⟩ "x").1 =
        some (.value .int) ∧
      (([.inherited ⟨2⟩, .objectMember ⟨0⟩ "z"].foldl Query.run diamond).objectLookup ⟨0⟩ "y").1 =
        some (.value .bool) := by
  obtain ⟨hclass, hobject, -⟩ := lookups_eq_search diamond cold_diamond [.inherited ⟨2⟩, .objectMember ⟨0⟩ "z"]
  refine ⟨cold_diamond, ?_, ?_, ?_⟩
  · rw [hclass, search_diamond]
  · rw [hobject]
    exact search_diamond
  · rw [hobject]
    rfl

end Arena

end Credence

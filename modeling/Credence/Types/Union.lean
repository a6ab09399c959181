import Credence.Types.Alike

namespace Credence

def isWeight (x : Float) : Bool :=
  x.isFinite && x ≥ 0.0

/-- The given weights, if they are one for each of `count` parts and usable; otherwise equal ones. -/
def weightsFor (count : Nat) (weights? : Option (List Float)) : List Float :=
  match weights? with
  | some weights =>
    if weights.length == count && weights.all isWeight then weights
    else List.replicate count 1.0
  | none => List.replicate count 1.0

namespace Union

def flatten (item : Ty × Float) : List (Ty × Float) :=
  match item.1 with
  | .union u => u.items.map fun (t, p) => (t, p * item.2)
  | _ => [item]

/-- Adds the weight to the first entry that is alike, or a new entry at the end. -/
def merge (item : Ty × Float) : List (Ty × Float) → List (Ty × Float)
  | [] => [item]
  | (t, w) :: rest =>
    if t.alike item.1 then (t, w + item.2) :: rest else (t, w) :: merge item rest

def mergeAll (items : List (Ty × Float)) : List (Ty × Float) :=
  items.foldl (fun entries item => merge item entries) []

def shares (weights : List Float) : List Float :=
  let total := weights.foldl (· + ·) 0.0
  if total > 0.0 then weights.map (· / total)
  else List.replicate weights.length (1.0 / Float.ofNat weights.length)

/-- The flat alternatives of types with weights, without undefined ones. -/
def flatItems (elts : List Ty) (weights? : Option (List Float)) : List (Ty × Float) :=
  ((elts.zip (weightsFor elts.length weights?)).flatMap flatten).filter
    fun item => !item.1.isUndefined

def entries (elts : List Ty) (weights? : Option (List Float)) : List (Ty × Float) :=
  let flat := flatItems elts weights?
  mergeAll (flat.filter (·.1.isHashable)) ++ mergeAll (flat.filter (!·.1.isHashable))

/-- The normal form of a union of types. -/
def ofList (elts : List Ty) (weights? : Option (List Float)) : Union Ty :=
  let found := entries elts weights?
  ⟨found.map (·.1), shares (found.map (·.2))⟩

theorem mem_merge {item entry : Ty × Float} {found : List (Ty × Float)}
    (h : entry ∈ merge item found) : entry.1 = item.1 ∨ ∃ e ∈ found, e.1 = entry.1 := by
  induction found with
  | nil =>
    simp only [merge, List.mem_singleton] at h
    exact .inl (h ▸ rfl)
  | cons first rest ih =>
    obtain ⟨t, w⟩ := first
    simp only [merge] at h
    split at h
    · rcases List.mem_cons.1 h with h | h
      · exact .inr ⟨(t, w), by simp, h ▸ rfl⟩
      · exact .inr ⟨entry, by simp [h], rfl⟩
    · rcases List.mem_cons.1 h with h | h
      · exact .inr ⟨(t, w), by simp, h ▸ rfl⟩
      · rcases ih h with h | ⟨e, he, h⟩
        · exact .inl h
        · exact .inr ⟨e, by simp [he], h⟩

theorem mem_mergeAll {items : List (Ty × Float)} {entry : Ty × Float}
    (h : entry ∈ mergeAll items) : ∃ item ∈ items, item.1 = entry.1 := by
  suffices ∀ found, entry ∈ items.foldl (fun entries item => merge item entries) found →
      (∃ item ∈ items, item.1 = entry.1) ∨ ∃ e ∈ found, e.1 = entry.1 by
    simpa using this [] h
  clear h
  induction items with
  | nil => exact fun found h => .inr ⟨entry, h, rfl⟩
  | cons item rest ih =>
    intro found h
    rcases ih _ h with ⟨i, hi, h⟩ | ⟨e, he, h⟩
    · exact .inl ⟨i, by simp [hi], h⟩
    · rcases mem_merge he with h' | ⟨e', he', h'⟩
      · exact .inl ⟨item, by simp, by rw [← h', h]⟩
      · exact .inr ⟨e', he', by rw [h', h]⟩

theorem mem_elts_ofList {elts : List Ty} {weights? : Option (List Float)} {t : Ty}
    (h : t ∈ (ofList elts weights?).elts) :
    t ∈ elts ∨ ∃ u, Ty.union u ∈ elts ∧ t ∈ u.elts := by
  simp only [ofList, entries, List.map_append, List.mem_append, List.mem_map] at h
  have flat : ∃ w, (t, w) ∈ flatItems elts weights? := by
    rcases h with ⟨e, he, rfl⟩ | ⟨e, he, rfl⟩ <;>
    · obtain ⟨i, hi, hie⟩ := mem_mergeAll he
      exact ⟨i.2, hie ▸ (List.mem_filter.1 hi).1⟩
  obtain ⟨w, hw⟩ := flat
  obtain ⟨item, hitem, ht⟩ := List.mem_flatMap.1 (List.mem_filter.1 hw).1
  have he : item.1 ∈ elts := (List.of_mem_zip hitem).1
  unfold flatten at ht
  split at ht
  · rename_i u hu
    obtain ⟨pair, hp, hpt⟩ := List.mem_map.1 ht
    cases hpt
    exact .inr ⟨u, hu ▸ he, (List.of_mem_zip hp).1⟩
  · simp only [List.mem_singleton] at ht
    subst ht
    exact .inl he

theorem sizeOf_lt_of_mem_ofList {elts : List Ty} {weights? : Option (List Float)} {t : Ty}
    (h : t ∈ (ofList elts weights?).elts) : sizeOf t < sizeOf elts := by
  rcases mem_elts_ofList h with h | ⟨u, hu, h⟩
  · exact List.sizeOf_lt_of_mem h
  · have := List.sizeOf_lt_of_mem hu
    have := Ty.sizeOf_lt_of_mem_union h
    omega

end Union

namespace Ty

/-- The union of types: without alternatives anything, with a single one just that. -/
def oneOf (elts : List Ty) (weights? : Option (List Float) := .none) : Ty :=
  let u := Union.ofList elts weights?
  match u.elts with
  | [] => any
  | [t] => t
  | _ => union u

end Ty

end Credence


namespace Credence

theorem mem_of_lookup {α β : Type} [BEq α] [LawfulBEq α] {entries : List (α × β)} {key : α}
    {value : β} (h : entries.lookup key = some value) : (key, value) ∈ entries := by
  obtain ⟨before, after, rfl, -⟩ := List.lookup_eq_some_iff.1 h
  simp

theorem not_mem_of_lookup {α β : Type} [BEq α] [LawfulBEq α] {entries : List (α × β)} {key : α}
    (h : entries.lookup key = none) (value : β) : (key, value) ∉ entries := by
  intro hm
  simpa using List.lookup_eq_none_iff.1 h _ hm

structure Table (α : Type) where
  entries : List (String × α) := []

namespace Table

variable {α β : Type}

instance : Inhabited (Table α) :=
  ⟨⟨[]⟩⟩

def empty : Table α :=
  ⟨[]⟩

def keys (t : Table α) : List String :=
  t.entries.map (·.1)

def get? (t : Table α) (name : String) : Option α :=
  t.entries.lookup name

def contains (t : Table α) (name : String) : Bool :=
  (t.get? name).isSome

def size (t : Table α) : Nat :=
  t.entries.length

/-- Replaces the first entry of a name, or adds one at the end. -/
def put (name : String) (value : α) : List (String × α) → List (String × α)
  | [] => [(name, value)]
  | (key, old) :: rest =>
    if name == key then (key, value) :: rest else (key, old) :: put name value rest

def insert (t : Table α) (name : String) (value : α) : Table α :=
  ⟨put name value t.entries⟩

def insertNew (t : Table α) (name : String) (value : α) : Table α :=
  if t.contains name then t else t.insert name value

def insertMany (t : Table α) (items : List (String × α)) : Table α :=
  items.foldl (fun t item => t.insert item.1 item.2) t

def ofList (items : List (String × α)) : Table α :=
  empty.insertMany items

/-- Removes the entry of a name; the later ones move up. -/
def erase (t : Table α) (name : String) : Table α :=
  ⟨t.entries.filter (·.1 != name)⟩

def mapM {m : Type → Type} [Monad m] (f : α → m β) (t : Table α) : m (Table β) := do
  return ⟨← t.entries.mapM fun (name, value) => do return (name, ← f value)⟩

theorem lookup_put (name other : String) (value : α) (entries : List (String × α)) :
    (put name value entries).lookup other =
      if other == name then some value else entries.lookup other := by
  induction entries with
  | nil => cases h : other == name <;> simp [put, List.lookup_cons, h]
  | cons entry rest ih =>
    obtain ⟨key, old⟩ := entry
    by_cases hk : name = key
    · subst hk
      cases h : other == name <;> simp [put, List.lookup_cons, h]
    · cases h : other == key
      · simp only [put, beq_iff_eq, hk, if_false, List.lookup_cons, h, ih]
      · have hn : (other == name) = false := by
          simp only [beq_iff_eq] at h
          simp only [h, beq_eq_false_iff_ne]
          exact Ne.symm hk
        simp only [put, beq_iff_eq, hk, if_false, List.lookup_cons, h, hn, Bool.false_eq_true]

@[simp]
theorem get?_insert (t : Table α) (name other : String) (value : α) :
    (t.insert name value).get? other = if other == name then some value else t.get? other :=
  lookup_put name other value t.entries

@[simp]
theorem get?_empty (name : String) : (empty : Table α).get? name = none :=
  rfl

theorem isSome_get?_iff {t : Table α} {name : String} : (t.get? name).isSome ↔ name ∈ t.keys := by
  simp only [get?, keys, List.lookup_isSome_iff, List.mem_map, beq_iff_eq]
  exact exists_congr fun _ => and_congr_right fun _ => eq_comm

theorem get?_eq_none_iff {t : Table α} {name : String} : t.get? name = none ↔ name ∉ t.keys := by
  rw [← isSome_get?_iff, Option.not_isSome_iff_eq_none]

theorem mem_keys_of_get? {t : Table α} {name : String} {value : α} (h : t.get? name = some value) :
    name ∈ t.keys :=
  isSome_get?_iff.1 (Option.isSome_of_eq_some h)

theorem keys_put (name : String) (value : α) (entries : List (String × α)) :
    (put name value entries).map (·.1) =
      if name ∈ entries.map (·.1) then entries.map (·.1) else entries.map (·.1) ++ [name] := by
  induction entries with
  | nil => simp [put]
  | cons entry rest ih =>
    obtain ⟨key, old⟩ := entry
    by_cases h : name = key
    · simp [put, h]
    · simp only [put, beq_iff_eq, h, if_false, List.map_cons, ih, List.mem_cons, false_or]
      split <;> simp

theorem keys_insert (t : Table α) (name : String) (value : α) :
    (t.insert name value).keys = if name ∈ t.keys then t.keys else t.keys ++ [name] :=
  keys_put name value t.entries

theorem keys_erase (t : Table α) (name : String) :
    (t.erase name).keys = t.keys.filter (· != name) := by
  simp only [keys, erase, List.filter_map]
  rfl

theorem nodup_keys_insert (t : Table α) (name : String) (value : α) (h : t.keys.Nodup) :
    (t.insert name value).keys.Nodup := by
  rw [keys_insert]
  split
  · exact h
  · rename_i hn
    exact List.nodup_append.2 ⟨h, by simp, by
      intro a ha b hb
      simp only [List.mem_singleton] at hb
      subst hb
      exact fun hab => hn (hab ▸ ha)⟩

end Table

end Credence

import Std.Data.TreeMap
import Credence.Source.Position
import Credence.Types.Basic

namespace Credence

structure Stamp where
  scope : ScopeId
  scopeGeneration : Nat
  arenaGeneration : Nat
deriving DecidableEq

def Memo.order : String × Nat → String × Nat → Ordering :=
  compareLex (compareOn (·.2)) (compareOn (·.1))

instance : Std.TransCmp Memo.order :=
  inferInstanceAs (Std.TransCmp (compareLex _ _))

theorem Memo.order_eq_iff {k l : String × Nat} : order k l = .eq ↔ k = l := by
  rw [order, compareLex_eq_eq, compareOn, compareOn, Std.LawfulEqOrd.compare_eq_iff_eq,
    Std.LawfulEqOrd.compare_eq_iff_eq, Prod.ext_iff, and_comm]

structure Memo where
  entries : Std.TreeMap (String × Nat) (Ty × Stamp) Memo.order := {}
  hits : Nat := 0

instance : Inhabited Memo :=
  ⟨{}⟩

namespace Memo

theorem getElem?_insert (entries : Std.TreeMap (String × Nat) (Ty × Stamp) order) (key other : String × Nat)
    (kept : Ty × Stamp) :
    (entries.insert key kept)[other]? = if key = other then some kept else entries[other]? := by
  rw [Std.TreeMap.getElem?_insert]
  simp only [order_eq_iff]

/-- The type of a node, if it was found under the same conditions. -/
def get (m : Memo) (file : String) (node : Nat) (stamp : Stamp) : Option Ty × Memo :=
  match m.entries[(file, node)]? with
  | some (type, kept) =>
    if kept = stamp then (some type, { m with hits := m.hits + 1 }) else (none, m)
  | none => (none, m)

def store (m : Memo) (file : String) (node : Nat) (type : Ty) (stamp : Stamp) : Memo :=
  { m with entries := m.entries.insert (file, node) (type, stamp) }

def drop (m : Memo) (file : String) (node : Nat) : Memo :=
  { m with entries := m.entries.erase (file, node) }

variable {m : Memo} {file : String} {node : Nat} {stamp : Stamp}

theorem entries_get : (m.get file node stamp).2.entries = m.entries := by
  unfold get
  split
  · split <;> rfl
  · rfl

theorem getElem?_of_get {t : Ty} (h : (m.get file node stamp).1 = some t) :
    m.entries[(file, node)]? = some (t, stamp) := by
  unfold get at h
  split at h
  · rename_i type kept hkept
    split at h
    · rename_i heq
      rw [hkept, Option.some.inj h, heq]
    · cases h
  · cases h

theorem getElem?_store {t : Ty} {key : String × Nat} {kept : Ty × Stamp}
    (h : (m.store file node t stamp).entries[key]? = some kept) :
    kept = (t, stamp) ∨ m.entries[key]? = some kept := by
  rw [store, getElem?_insert] at h
  split at h
  · exact .inl (Option.some.inj h).symm
  · exact .inr h

end Memo

structure HintKey where
  line : Nat
  start : Nat
  stop : Nat
deriving DecidableEq

/-- Types from elsewhere for places of a source, each with a probability. -/
structure Hints where
  entries : List (HintKey × Ty × Float) := []

namespace Hints

def insert (h : Hints) (key : HintKey) (type : Ty) (probability : Float) : Hints :=
  ⟨h.entries.filter (·.1 != key) ++ [(key, type, probability)]⟩

def get? (h : Hints) (span : Span) : Option (Ty × Float) :=
  h.entries.lookup ⟨span.start.line, span.start.column, span.stop.column⟩

end Hints

end Credence


namespace Credence

/-- The keys that are busy, and a count of the bodies that have been entered and not left. -/
structure Guard where
  busy : List String := []
  depth : Nat := 0
deriving DecidableEq, Inhabited

namespace Guard

def isBusy (g : Guard) (key : String) : Bool :=
  g.busy.contains key

def enter? (g : Guard) (key : String) : Option Guard :=
  if g.isBusy key then none else some ⟨key :: g.busy, g.depth + 1⟩

def exit (g : Guard) (key : String) : Guard :=
  if g.isBusy key then ⟨g.busy.erase key, g.depth - 1⟩ else g

theorem enter?_eq_some {g h : Guard} {key : String} :
    g.enter? key = some h ↔ key ∉ g.busy ∧ h = ⟨key :: g.busy, g.depth + 1⟩ := by
  unfold enter? isBusy
  by_cases hbusy : key ∈ g.busy
  · simp [hbusy]
  · simp [hbusy, eq_comm]

theorem enter?_eq_none {g : Guard} {key : String} : g.enter? key = none ↔ key ∈ g.busy := by
  simp [enter?, isBusy]

theorem exit_enter {g h : Guard} {key : String} (e : g.enter? key = some h) : h.exit key = g := by
  obtain ⟨-, rfl⟩ := enter?_eq_some.1 e
  simp [exit, isBusy]

end Guard

end Credence

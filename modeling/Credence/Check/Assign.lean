import Credence.Check.Call
import Credence.Tree.Names

namespace Credence.Check

open CheckM

inductive BindMode where
  | checked
  /-- Without one. -/
  | fresh
deriving DecidableEq

def known (t : Ty) : List Ty :=
  if t.isUnknown then [] else [t]

/-- A value without positions is spread: each target gets the element type, or the value itself if
it has none, and a starred target gets a list of that. -/
def spreadOver (targets : List Expr) (value : Ty) : List (Expr × Ty) :=
  let element := value.elementType
  let spread := if element.isUnknown && value.asContainer?.isNone then value else element
  targets.map fun target =>
    match target.starred? with
    | some inner => (inner, .listOf (known spread))
    | none => (target, spread)

/-- The elements of a tuple position by position, with the first starred target at the given index
taking the middle ones. -/
def distributeAround (star : Nat) (targets : List Expr) (elts : List Ty) : List (Expr × Ty) :=
  let middleEnd := elts.length - (targets.length - star - 1)
  let middle := ((elts.take middleEnd).drop star).foldl Container.pushKnown { kind := .list }
  (targets.take star).zip (elts.take star) ++
    ((targets.drop star).take 1).map (fun target => (target.unstarred, .container middle)) ++
    (targets.drop (star + 1)).zip (elts.drop middleEnd)

/-- Which target gets which type. A tuple whose length suits the targets is taken apart. -/
def distribute (targets : List Expr) (value : Ty) : List (Expr × Ty) :=
  match value with
  | .container c =>
    if c.kind == .tuple && !c.isEmpty then
      match targets.findIdx? Expr.isStarred with
      | none =>
        if c.elts.length == targets.length then targets.zip c.elts else spreadOver targets value
      | some star =>
        if targets.length ≤ c.elts.length + 1 then distributeAround star targets c.elts
        else spreadOver targets value
    else spreadOver targets value
  | _ => spreadOver targets value

theorem mem_distribute {targets : List Expr} {value : Ty} {item : Expr × Ty}
    (h : item ∈ distribute targets value) :
    ∃ target ∈ targets, item.1 = target ∨ item.1 = target.unstarred := by
  have spread (h : item ∈ spreadOver targets value) :
      ∃ target ∈ targets, item.1 = target ∨ item.1 = target.unstarred := by
    obtain ⟨target, ht, rfl⟩ := List.mem_map.1 h
    refine ⟨target, ht, ?_⟩
    split
    · rename_i inner hi
      exact .inr (by simp [Expr.unstarred, hi])
    · exact .inl rfl
  unfold distribute at h
  repeat' split at h
  · exact ⟨item.1, (List.of_mem_zip h).1, .inl rfl⟩
  · exact spread h
  · simp only [distributeAround, List.mem_append] at h
    rcases h with (h | h) | h
    · exact ⟨item.1, List.mem_of_mem_take (List.of_mem_zip h).1, .inl rfl⟩
    · obtain ⟨target, ht, rfl⟩ := List.mem_map.1 h
      exact ⟨target, List.mem_of_mem_drop (List.mem_of_mem_take ht), .inr rfl⟩
    · exact ⟨item.1, List.mem_of_mem_drop (List.of_mem_zip h).1, .inl rfl⟩
  · exact spread h
  · exact spread h
  · exact spread h

def rebindContainer (inner : Inner) (e : Expr) (grown : Ty) : CheckM Unit := do
  match e.form with
  | .name name => modifyScopes (·.update name grown)
  | .member value attr =>
    let owner ← inner.expr value
    modifyArena (·.replaceAttribute owner attr grown)
  | _ => return

def withItem? (c : Container Ty) (slice : Bool) (index value : Ty) : Option (Container Ty) :=
  match c.kind with
  | .list =>
    if slice then
      some ((value.elementType.alternatives.map (·.1)).foldl Container.pushKnown c)
    else some (c.pushKnown value)
  | .dict => some (c.pushPair index value)
  | .set | .tuple => none

def storeItem (inner : Inner) (container index : Expr) (value : Ty) : CheckM Unit := do
  let holder ← inner.expr container
  let place ← inner.expr index
  match holder with
  | .container c =>
    if let some grown := withItem? c index.isSlice place value then
      if !(Ty.container grown).alike holder then
        rebindContainer inner container (.container grown)
  | .object id =>
    let _ ← callSpecial inner id "__setitem__" { positional := [place, value] }
  | _ => return

def assign (inner : Inner) (target : Expr) (value : Ty) (confidence : Float) (mode : BindMode) :
    CheckM Unit := do
  match _h : target.form with
  | .name name =>
    match mode with
    | .checked => bindName name value confidence
    | .fresh => modifyScopes (·.set name value confidence)
  | .member owner attr =>
    let owner ← inner.expr owner
    let (written, arena) := (← getArena).setAttribute owner attr value
    modifyArena fun _ => arena
    match written with
    | .ok () => return
    | .error cause => fail cause target.span.start
  | .subscript container index => storeItem inner container index value
  | .tuple targets | .list targets =>
    (distribute targets value).attach.forM fun ⟨item, _⟩ =>
      assign inner item.1 item.2 confidence mode
  | .starred starred => assign inner starred (.listOf (known value.elementType)) confidence mode
  | _ => fail (.unsupportedTarget target.describe) target.span.start
termination_by sizeOf target
decreasing_by
  all_goals try
    rename_i hm
    obtain ⟨t, ht, hi⟩ := mem_distribute hm
    have := Expr.sizeOf_unstarred_le t
    have : sizeOf t < sizeOf target := Expr.sizeOf_lt_of_mem_children
      (by simpa [Expr.children, ExprForm.children, _h] using ht)
    rcases hi with hi | hi <;> rw [hi] <;> omega
  exact Expr.sizeOf_lt_of_mem_children
    (by simp [Expr.children, ExprForm.children, _h])

end Credence.Check

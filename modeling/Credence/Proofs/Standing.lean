import Mathlib.Data.List.Induction
import Credence.Proofs.Resolution

namespace Credence

namespace Table

variable {α : Type}

theorem get?_insertMany (t : Table α) (items : List (String × α)) (name : String) :
    (t.insertMany items).get? name = ((ofList items).get? name).or (t.get? name) := by
  unfold ofList
  induction items using List.reverseRecOn with
  | nil => rfl
  | append_singleton items item ih =>
    unfold insertMany at ih ⊢
    rw [List.foldl_append, List.foldl_append, List.foldl_cons, List.foldl_cons, List.foldl_nil, List.foldl_nil,
      get?_insert, get?_insert, ih]
    split <;> rfl

theorem mem_entries_insert {t : Table α} {name : String} {value : α} {entry : String × α}
    (h : entry ∈ (t.insert name value).entries) : entry = (name, value) ∨ entry ∈ t.entries := by
  suffices ∀ entries : List (String × α), entry ∈ put name value entries →
      entry = (name, value) ∨ entry ∈ entries from this _ h
  intro entries
  induction entries with
  | nil => exact fun h => .inl (List.mem_singleton.1 h)
  | cons first rest ih =>
    intro h
    unfold put at h
    split at h
    · rename_i hname
      rcases List.mem_cons.1 h with h | h
      · exact .inl (h.trans (Prod.ext (beq_iff_eq.1 hname).symm rfl))
      · exact .inr (List.mem_cons_of_mem first h)
    · rcases List.mem_cons.1 h with h | h
      · exact .inr (h ▸ List.mem_cons_self)
      · exact (ih h).imp_right (List.mem_cons_of_mem first)

theorem isSome_get?_ofList (items : List (String × α)) (name : String) :
    ((ofList items).get? name).isSome = true ↔ name ∈ items.map (·.1) := by
  unfold ofList
  induction items using List.reverseRecOn with
  | nil => simp [insertMany]
  | append_singleton items item ih =>
    unfold insertMany at ih ⊢
    rw [List.foldl_append, List.foldl_cons, List.foldl_nil, get?_insert, List.map_append, List.mem_append, ← ih]
    by_cases hname : name = item.1 <;> simp [hname]

end Table

namespace Scopes

variable {s t : Scopes} {base d : Nat} {spine rest : List Nat} {id : ScopeId} {x : String} {b : Binding}

theorem chain_of_all (hall : t.all = s.all) (id : ScopeId) : t.chain id = s.chain id := by
  rw [chain, chain, hall]
  generalize s.all.size = steps
  induction steps generalizing id with
  | zero => rfl
  | succ steps ih =>
    rw [walk, walk, scopeAt_of_all hall]
    cases (s.scopeAt id).parent with
    | none => rfl
    | some parent => exact congrArg (id :: ·) (ih parent)

theorem lookupFrom_of_all (hall : t.all = s.all) (id : ScopeId) (x : String) :
    t.lookupFrom id x = s.lookupFrom id x := by
  rw [lookupFrom, lookupFrom, chain_of_all hall]
  simp only [scopeAt_of_all hall]

namespace Formed

variable (h : s.Formed)
include h

theorem chain_eq (id : ScopeId) : s.chain id = id :: ((s.scopeAt id).parent.map s.chain).getD [] := by
  obtain ⟨path, hpath, hlength⟩ : ∃ path, s.Outwards (id :: path) ∧ path.length < s.all.size := by
    by_cases hid : id.val < s.all.size
    · exact (h.rooted id).outwards_within h.parents hid
    · have hnone : (s.scopeAt id).parent = none := congrArg Scope.parent (getD_of_not_lt hid)
      exact ⟨[], hnone, Nat.lt_of_le_of_lt (Nat.zero_le _) h.current⟩
  rw [chain, hpath.walk hlength]
  cases path with
  | nil =>
    have hparent : (s.scopeAt id).parent = none := hpath
    rw [hparent]
    rfl
  | cons next rest =>
    have hnext : s.chain next = next :: rest := hpath.2.walk (Nat.lt_of_succ_lt hlength)
    rw [hpath.1, Option.map_some, Option.getD_some, hnext]

theorem lookupFrom_eq (id : ScopeId) (x : String) :
    s.lookupFrom id x =
      ((s.scopeAt id).bindings.get? x).or ((s.scopeAt id).parent.bind (s.lookupFrom · x)) := by
  rw [lookupFrom, h.chain_eq id, List.findSome?_cons]
  cases (s.scopeAt id).bindings.get? x with
  | some b => rfl
  | none => cases (s.scopeAt id).parent <;> rfl

theorem find?_chain (id : ScopeId) (x : String) :
    (s.chain id).find? (fun id => (s.scopeAt id).bindings.contains x) =
      if (s.scopeAt id).bindings.contains x then some id
      else (s.scopeAt id).parent.bind fun p => (s.chain p).find? fun id => (s.scopeAt id).bindings.contains x := by
  rw [h.chain_eq id, List.find?_cons]
  cases (s.scopeAt id).bindings.contains x with
  | true => rfl
  | false => cases (s.scopeAt id).parent <;> rfl

/-- What a name leads to depends on the scopes outwards alone. -/
theorem lookupFrom_of_below (ht : t.Formed) (bound : Nat)
    (hclosed : ∀ id : ScopeId, id.val < bound → ∀ p ∈ (s.scopeAt id).parent, p.val < bound)
    (hsame : ∀ id : ScopeId, id.val < bound → t.scopeAt id = s.scopeAt id) (hid : id.val < bound) :
    t.lookupFrom id x = s.lookupFrom id x := by
  induction h.rooted id with
  | root hparent =>
    rw [h.lookupFrom_eq, ht.lookupFrom_eq, hsame _ hid, hparent]
    rfl
  | child hparent _ ih =>
    rw [h.lookupFrom_eq, ht.lookupFrom_eq, hsame _ hid, hparent, Option.bind_some, Option.bind_some, ih (hclosed _ hid _ hparent)]

end Formed

theorem find?_chain_of_lookupFrom (h : s.lookupFrom id x = none) :
    (s.chain id).find? (fun id => (s.scopeAt id).bindings.contains x) = none := by
  rw [List.find?_eq_none]
  intro other hother
  have hnone := List.findSome?_eq_none_iff.1 h other hother
  simp [Table.contains, hnone]

/-- Scopes within a body, by how far from the base they are numbered, from the innermost out to the base. -/
inductive Line (s : Scopes) (base : Nat) : List Nat → Prop
  | base : Line s base []
  | inner {d : Nat} {rest : List Nat} (outer : rest.headD 0 < d) (inside : base + d < s.all.size)
    (parent : (s.scopeAt ⟨base + d⟩).parent = some ⟨base + rest.headD 0⟩) (h : Line s base rest) :
    Line s base (d :: rest)

/-- A run stands in a line of scopes within a body. The scopes around the base are older than the base. -/
structure Stands (s : Scopes) (base : Nat) (spine : List Nat) : Prop where
  formed : s.Formed
  fresh : s.Fresh base
  inside : base < s.all.size
  below : ∀ id : ScopeId, id.val ≤ base → ∀ p ∈ (s.scopeAt id).parent, p.val < base
  current : s.current = ⟨base + spine.headD 0⟩
  line : s.Line base spine

theorem Line.of_mem (h : s.Line base spine) (hd : d ∈ spine) : 0 < d ∧ base + d < s.all.size := by
  induction h with
  | base => exact absurd hd List.not_mem_nil
  | inner outer inside _ _ ih =>
    rcases List.mem_cons.1 hd with rfl | hd
    · exact ⟨Nat.lt_of_le_of_lt (Nat.zero_le _) outer, inside⟩
    · exact ih hd

theorem Line.of_same (h : s.Line base spine) (hsize : s.all.size ≤ t.all.size)
    (hparents : ∀ id : ScopeId, id.val < s.all.size → (t.scopeAt id).parent = (s.scopeAt id).parent) :
    t.Line base spine := by
  induction h with
  | base => exact .base
  | inner outer inside parent _ ih =>
    exact .inner outer (Nat.lt_of_lt_of_le inside hsize) ((hparents _ inside).trans parent) ih

namespace Stands

theorem lookup (h : s.Stands base spine) (x : String) : s.lookup x = s.lookupFrom s.current x := by
  rw [Scopes.lookup, here, h.fresh.redirects s.current h.fresh.current]
  rfl

theorem lookup_of_here (h : s.Stands base spine) (hb : s.here.bindings.get? x = some b) : s.lookup x = some b := by
  rw [here] at hb
  rw [h.lookup, h.formed.lookupFrom_eq, hb]
  rfl

theorem target (h : s.Stands base spine) (x : String) : s.target x = s.current :=
  h.fresh.target x

theorem current_lt (h : s.Stands base spine) : s.current.val < s.all.size :=
  h.formed.current

theorem touch (h : s.Stands base spine) : s.touch.Stands base spine := by
  refine ⟨h.formed.touch, ?_, h.inside, h.below, h.current, ?_⟩
  · exact ⟨h.fresh.size, h.fresh.current, h.fresh.redirects⟩
  · exact h.line.of_same (Nat.le_refl _) fun _ _ => rfl

theorem bind (h : s.Stands base spine) (hid : base ≤ id.val) (x : String) (b : Binding) :
    (s.bind id x b).Stands base spine := by
  have hsteady : s.Steady (s.bind id x b) :=
    (s.steady_modifyScope id (f := fun scope => { scope with bindings := scope.bindings.insert x b })
      fun _ => rfl).trans (steady_touch _)
  refine ⟨h.formed.of_steady hsteady, (h.fresh.bind hid x b).fresh, hsteady.size ▸ h.inside, ?_,
    hsteady.current.trans h.current, ?_⟩
  · intro other hother
    rw [hsteady.parents other]
    exact h.below other hother
  · exact h.line.of_same hsteady.size.ge fun id _ => hsteady.parents id

theorem inside_of_mem (h : s.Stands base spine) (hd : d ∈ 0 :: spine) : base + d < s.all.size := by
  rcases List.mem_cons.1 hd with rfl | hd
  · exact h.inside
  · exact (h.line.of_mem hd).2

theorem bindings_bind (h : s.Stands base spine) (e : Nat) (hd : d ∈ 0 :: spine) (x : String) (b : Binding) :
    ((s.bind ⟨base + e⟩ x b).scopeAt ⟨base + d⟩).bindings =
      if e = d then (s.scopeAt ⟨base + d⟩).bindings.insert x b else (s.scopeAt ⟨base + d⟩).bindings := by
  rw [scopeAt_bind _ (h.inside_of_mem hd)]
  by_cases heq : e = d
  · subst heq
    rw [if_pos rfl, if_pos rfl]
  · rw [if_neg heq, if_neg fun hid => heq (Nat.add_left_cancel (congrArg ScopeId.val hid))]

theorem enter (h : s.Stands base spine) (label : String) :
    (s.enter label).2.Stands base ((s.all.size - base) :: spine) := by
  have hall : (s.enter label).2.all = s.all.push { name := label, parent := some s.current } := rfl
  have hsize : (s.enter label).2.all.size = s.all.size + 1 := by rw [hall, Array.size_push]
  have hbase := h.inside
  have hnew : base + (s.all.size - base) = s.all.size := by omega
  have hcurrent := h.current_lt
  refine ⟨h.formed.enter label, h.fresh.enter (.block label), by omega, ?_, ?_, ?_⟩
  · intro other hother
    rw [scopeAt_of_push (Nat.lt_of_le_of_lt hother hbase) hall]
    exact h.below other hother
  · exact congrArg ScopeId.mk hnew.symm
  · refine .inner ?_ (by omega) ?_ (h.line.of_same (by omega) fun id hid => ?_)
    · rw [h.current] at hcurrent
      simp only at hcurrent
      omega
    · rw [hnew, ← h.current]
      exact congrArg Scope.parent (getD_push_size s.all _)
    · rw [scopeAt_of_push hid hall]

theorem outer (h : s.Stands base (d :: rest)) :
    Stands { s with current := ⟨base + rest.headD 0⟩ } base rest := by
  obtain ⟨outer, inside, parent, hline⟩ : rest.headD 0 < d ∧ base + d < s.all.size ∧ _ ∧ s.Line base rest := by
    cases h.line with
    | inner outer inside parent h => exact ⟨outer, inside, parent, h⟩
  refine ⟨h.formed.goInto ?_ h.formed.saved, ⟨h.fresh.size, Nat.le_add_right _ _, h.fresh.redirects⟩,
    h.inside, h.below, rfl, hline.of_same (Nat.le_refl _) fun _ _ => rfl⟩
  exact Nat.lt_trans (Nat.add_lt_add_left outer base) inside

theorem parent (h : s.Stands base (d :: rest)) : s.here.parent = some ⟨base + rest.headD 0⟩ := by
  rw [here, h.current]
  cases h.line with
  | inner _ _ parent _ => exact parent

theorem exit_eq (h : s.Stands base (d :: rest)) :
    s.exit = { s with current := ⟨base + rest.headD 0⟩ }.touch := by
  rw [Scopes.exit, h.parent]

theorem lookupFrom_outer (h : s.Stands base (d :: rest)) (x : String) :
    s.lookupFrom s.current x = (s.here.bindings.get? x).or
      (lookupFrom { s with current := ⟨base + rest.headD 0⟩ } ⟨base + rest.headD 0⟩ x) := by
  have hparent := h.parent
  rw [here] at hparent
  rw [h.formed.lookupFrom_eq, hparent, Option.bind_some,
    lookupFrom_of_all (s := s) (t := { s with current := ⟨base + rest.headD 0⟩ }) rfl]
  rfl

theorem defining?_outer (h : s.Stands base (d :: rest)) (x : String) :
    s.defining? x = if s.here.bindings.contains x then some s.current
      else defining? { s with current := ⟨base + rest.headD 0⟩ } x := by
  have hparent := h.parent
  rw [here] at hparent
  rw [defining?, h.formed.find?_chain, hparent, Option.bind_some, defining?,
    chain_of_all (s := s) (t := { s with current := ⟨base + rest.headD 0⟩ }) rfl]
  rfl

theorem lookupFrom_bind_inner (h : s.Stands base spine) (hid : base < id.val) (x name : String) (b : Binding) :
    (s.bind id name b).lookupFrom ⟨base⟩ x = s.lookupFrom ⟨base⟩ x := by
  have ht := h.bind (Nat.le_of_lt hid) name b
  refine h.formed.lookupFrom_of_below ht.formed (base + 1) ?_ ?_ (Nat.lt_succ_self _)
  · intro other hother p hp
    exact Nat.lt_succ_of_lt (h.below other (Nat.le_of_lt_succ hother) p hp)
  · intro other hother
    rw [scopeAt_bind id (Nat.lt_of_lt_of_le hother h.inside)]
    refine if_neg fun heq => ?_
    rw [heq] at hid
    omega

theorem lookupFrom_bind_base (h : s.Stands base spine) (x name : String) (b : Binding) :
    (s.bind ⟨base⟩ name b).lookupFrom ⟨base⟩ x = if x == name then some b else s.lookupFrom ⟨base⟩ x := by
  have ht : (s.bind ⟨base⟩ name b).Stands base spine := h.bind (Nat.le_refl base) name b
  have hat : (s.bind ⟨base⟩ name b).scopeAt ⟨base⟩ =
      { s.scopeAt ⟨base⟩ with bindings := (s.scopeAt ⟨base⟩).bindings.insert name b } := by
    rw [scopeAt_bind _ h.inside, if_pos rfl]
  rw [ht.formed.lookupFrom_eq, h.formed.lookupFrom_eq, hat, Table.get?_insert]
  split
  · rfl
  congr 1
  cases hparent : (s.scopeAt ⟨base⟩).parent with
  | none => rfl
  | some p =>
    refine h.formed.lookupFrom_of_below ht.formed base (fun id hid => h.below id (Nat.le_of_lt hid))
      ?_ (h.below ⟨base⟩ (Nat.le_refl _) p hparent)
    intro other hother
    rw [scopeAt_bind _ (Nat.lt_trans hother h.inside)]
    refine if_neg fun heq => ?_
    rw [← heq] at hother
    exact Nat.lt_irrefl _ hother

theorem lookupFrom_bind (h : s.Stands base spine) {e : Nat} (he : e ∈ 0 :: spine) (x name : String) (b : Binding) :
    (s.bind ⟨base + e⟩ name b).lookupFrom ⟨base⟩ x =
      if e = 0 ∧ x = name then some b else s.lookupFrom ⟨base⟩ x := by
  rcases List.mem_cons.1 he with rfl | he
  · rw [Nat.add_zero, h.lookupFrom_bind_base]
    simp only [beq_iff_eq, true_and]
  · have hpos := (h.line.of_mem he).1
    rw [h.lookupFrom_bind_inner (Nat.lt_add_of_pos_right hpos), if_neg fun heq => Nat.ne_of_gt hpos heq.1]

theorem own_bind (h : s.Stands base spine) {e : Nat} (he : e ∈ 0 :: spine) (name : String) (b : Binding)
    (hown : s.lookupFrom ⟨base⟩ x = (s.scopeAt ⟨base⟩).bindings.get? x) :
    (s.bind ⟨base + e⟩ name b).lookupFrom ⟨base⟩ x =
      ((s.bind ⟨base + e⟩ name b).scopeAt ⟨base⟩).bindings.get? x := by
  have hbase := h.bindings_bind e (d := 0) List.mem_cons_self name b
  rw [Nat.add_zero] at hbase
  rw [h.lookupFrom_bind he, hbase, hown]
  by_cases he : e = 0
  · simp only [he, true_and, if_true, Table.get?_insert, beq_iff_eq]
  · simp only [he, false_and, if_false]

theorem lookupFrom_enter (h : s.Stands base spine) (label x : String) :
    (s.enter label).2.lookupFrom ⟨base⟩ x = s.lookupFrom ⟨base⟩ x := by
  have ht := h.enter label
  refine h.formed.lookupFrom_of_below ht.formed s.all.size (fun id _ => h.formed.parents id)
    (fun id hid => ?_) h.inside
  exact scopeAt_of_push hid rfl

end Stands

def parameters (params : List (String × Ty)) : Table Binding :=
  .ofList (params.map fun (param, type) => (param, { type, confidence := 1.0 }))

section Calls

variable (h : s.Formed) (f : String) (captured : ScopeId) (params : List (String × Ty))

theorem get?_enterFunction (x : String) :
    ((s.enterFunction f captured params).2.scopeAt ⟨s.all.size⟩).bindings.get? x =
      ((parameters params).get? x).or ((s.scopeAt captured).bindings.get? x) := by
  have hhere := here_enterFunction s f captured params
  change (s.enterFunction f captured params).2.here.bindings.get? x = _
  rw [hhere]
  exact Table.get?_insertMany _ _ x

theorem parent_enterFunction :
    ((s.enterFunction f captured params).2.scopeAt ⟨s.all.size⟩).parent = (s.scopeAt captured).parent := by
  have hhere := here_enterFunction s f captured params
  change (s.enterFunction f captured params).2.here.parent = _
  rw [hhere]

include h

theorem Formed.stands_enterFunction : (s.enterFunction f captured params).2.Stands s.all.size [] := by
  refine ⟨h.enterFunction f captured params, s.fresh_enterFunction f captured params, ?_, ?_, rfl, .base⟩
  · exact Nat.lt_of_lt_of_eq (Nat.lt_succ_self _) (Array.size_push _).symm
  · intro id hid
    rcases Nat.lt_or_eq_of_le hid with hid | hid
    · rw [scopeAt_of_push hid rfl]
      exact h.parents id
    · obtain rfl : id = ⟨s.all.size⟩ := congrArg ScopeId.mk hid
      rw [parent_enterFunction]
      exact h.parents captured

theorem Formed.lookupFrom_enterFunction (x : String) :
    (s.enterFunction f captured params).2.lookupFrom ⟨s.all.size⟩ x =
      ((parameters params).get? x).or (s.lookupFrom captured x) := by
  have ht := h.stands_enterFunction f captured params
  rw [ht.formed.lookupFrom_eq, get?_enterFunction, parent_enterFunction, h.lookupFrom_eq captured, Option.or_assoc]
  congr 2
  cases hp : (s.scopeAt captured).parent with
  | none => rfl
  | some p =>
    exact h.lookupFrom_of_below ht.formed s.all.size (fun id _ => h.parents id)
      (fun id hid => scopeAt_of_push hid rfl) (h.parents captured p hp)

/-- What is a parameter or not visible from the captured scope leads to the parameters alone. -/
theorem Formed.own_enterFunction {x : String}
    (hx : x ∈ params.map (·.1) ∨ s.lookupFrom captured x = none) :
    ((s.enterFunction f captured params).2.scopeAt ⟨s.all.size⟩).bindings.get? x = (parameters params).get? x ∧
      (s.enterFunction f captured params).2.lookupFrom ⟨s.all.size⟩ x = (parameters params).get? x := by
  rw [get?_enterFunction, h.lookupFrom_enterFunction]
  rcases hx with hparam | hnone
  · have hsome : ((parameters params).get? x).isSome = true := by
      rw [parameters, Table.isSome_get?_ofList, List.map_map]
      exact hparam
    obtain ⟨b, hb⟩ := Option.isSome_iff_exists.1 hsome
    rw [hb]
    exact ⟨rfl, rfl⟩
  · have hget : (s.scopeAt captured).bindings.get? x = none := by
      rw [h.lookupFrom_eq] at hnone
      exact (Option.or_eq_none_iff.1 hnone).1
    rw [hnone, hget, Option.or_none]
    exact ⟨rfl, rfl⟩

end Calls

end Scopes

end Credence

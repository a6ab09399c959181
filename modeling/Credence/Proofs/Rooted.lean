import Credence.Proofs.Contents

namespace Credence

/-- All that a scope binds is there, and so is all that it leads to. -/
structure Scope.Sound (has : Entry → Prop) (scope : Scope) : Prop where
  bindings : scope.bindings.All fun b => b.type.Sound has
  parent : ∀ p ∈ scope.parent, has (.scope p)
  redirects : scope.redirects.All fun id => has (.scope id)

namespace Scopes

variable {has more : Entry → Prop} {s t : Scopes} {a : Arena}

/-- The way outwards from a scope ends in a scope without a parent. -/
inductive Rooted (s : Scopes) : ScopeId → Prop
  | root {id : ScopeId} (h : (s.scopeAt id).parent = none) : Rooted s id
  | child {id parent : ScopeId} (h : (s.scopeAt id).parent = some parent) (hp : Rooted s parent) :
      Rooted s id

theorem Rooted.of_parents {P : ScopeId → Prop} {id : ScopeId} (h : s.Rooted id) (hid : P id)
    (hparents : ∀ id, P id → (t.scopeAt id).parent = (s.scopeAt id).parent)
    (hclosed : ∀ id parent, P id → (s.scopeAt id).parent = some parent → P parent) : t.Rooted id := by
  induction h with
  | root h => exact .root ((hparents _ hid).trans h)
  | child h _ ih => exact .child ((hparents _ hid).trans h) (ih (hclosed _ _ hid h))

theorem Rooted.of_steady {id : ScopeId} (h : s.Rooted id) (hs : s.Steady t) : t.Rooted id := by
  refine h.of_parents (P := fun _ => True) trivial (fun id _ => ?_) fun _ _ _ _ => trivial
  exact hs.parents id

theorem Rooted.of_all {id : ScopeId} (h : s.Rooted id) (hall : t.all = s.all) : t.Rooted id := by
  refine h.of_parents (P := fun _ => True) trivial (fun id _ => ?_) fun _ _ _ _ => trivial
  exact congrArg Scope.parent (scopeAt_of_all hall id)

/-- All that scopes bind is there, and so are all scopes that are named; every way outwards ends. -/
structure Sound (has : Entry → Prop) (s : Scopes) : Prop where
  scope : ∀ id, (s.scopeAt id).Sound has
  rooted : ∀ id, s.Rooted id
  current : has (.scope s.current)
  saved : ∀ id ∈ s.saved, has (.scope id)
  module : ∀ id ∈ s.module, has (.scope id)
  global : has (.scope Scopes.global)

end Scopes

section Mono

variable {has more : Entry → Prop} (hmono : ∀ e, has e → more e)
include hmono

theorem Scope.Sound.mono {scope : Scope} (h : scope.Sound has) : scope.Sound more where
  bindings := h.bindings.imp fun _ hb => hb.mono hmono
  parent p hp := hmono _ (h.parent p hp)
  redirects := h.redirects.imp fun _ hid => hmono _ hid

theorem Scopes.Sound.mono {s : Scopes} (h : s.Sound has) : s.Sound more where
  scope id := (h.scope id).mono hmono
  rooted := h.rooted
  current := hmono _ h.current
  saved id hid := hmono _ (h.saved id hid)
  module id hid := hmono _ (h.module id hid)
  global := hmono _ h.global

end Mono

namespace Scopes

variable {has more : Entry → Prop} {s t : Scopes} {a : Arena}

theorem forall_mem_walk {P : ScopeId → Prop} (hparents : ∀ id, P id → ∀ p ∈ (s.scopeAt id).parent, P p)
    {steps : Nat} {start : ScopeId} (hstart : P start) : ∀ id ∈ s.walk steps start, P id := by
  induction steps generalizing start with
  | zero => exact fun _ hid => absurd hid List.not_mem_nil
  | succ steps ih =>
    refine List.forall_mem_cons.2 ⟨hstart, ?_⟩
    split
    · rename_i parent hparent
      exact ih (hparents start hstart parent hparent)
    · exact fun _ hid => absurd hid List.not_mem_nil

theorem Sound.of_mem_walk (h : s.Sound has) {steps : Nat} {start id : ScopeId}
    (hstart : has (.scope start)) (hid : id ∈ s.walk steps start) : has (.scope id) :=
  forall_mem_walk (P := fun id => has (.scope id)) (fun id _ => (h.scope id).parent) hstart id hid

theorem Sound.of_lookupFrom (h : s.Sound has) {start : ScopeId} {name : String} {b : Binding}
    (hb : s.lookupFrom start name = some b) : b.type.Sound has := by
  obtain ⟨id, -, hget⟩ := List.exists_of_findSome?_eq_some hb
  exact (h.scope id).bindings.of_get? hget

theorem Sound.of_lookup (h : s.Sound has) {name : String} {b : Binding}
    (hb : s.lookup name = some b) : b.type.Sound has := by
  unfold lookup at hb
  split at hb
  · rename_i found hfound
    obtain ⟨id, -, hget⟩ := Option.bind_eq_some_iff.1 hfound
    exact Option.some.inj hb ▸ (h.scope id).bindings.of_get? hget
  · exact h.of_lookupFrom hb

theorem Sound.find (h : s.Sound has) (name : String) : (s.find name).Sound has := by
  unfold Scopes.find
  cases hb : s.lookup name with
  | none => exact .any
  | some b => exact h.of_lookup hb

theorem Sound.of_visible? (h : s.Sound has) {id : ScopeId} {name : String} {found : Ty × Bool}
    (hfound : s.visible? id name = some found) : found.1.Sound has := by
  unfold visible? at hfound
  split at hfound
  · rename_i b hget
    exact Option.some.inj hfound ▸ (h.scope id).bindings.of_get? hget
  · obtain ⟨b, hb, rfl⟩ := Option.map_eq_some_iff.1 hfound
    exact h.of_lookup hb

theorem Sound.findDotted (h : s.Sound has) (ha : a.Sound has) (name : String) :
    (s.findDotted a name).1.Sound has ∧ a.Stays has (s.findDotted a name).2 := by
  unfold Scopes.findDotted
  split
  · exact ⟨.any, .refl ha⟩
  · rename_i first rest _
    suffices ∀ (rest : List String) (state : Ty × Arena),
        state.1.Sound has ∧ a.Stays has state.2 →
        (rest.foldl (fun state part => state.2.component state.1 part) state).1.Sound has ∧
          a.Stays has (rest.foldl (fun state part => state.2.component state.1 part) state).2 from
      this rest _ ⟨h.find first, .refl ha⟩
    intro rest
    induction rest with
    | nil => exact fun _ hstate => hstate
    | cons part rest ih =>
      intro state hstate
      have hstep := hstate.2.sound.component hstate.1 part
      exact ih _ ⟨hstep.1, hstate.2.trans hstep.2⟩

theorem Sound.touch (h : s.Sound has) : s.touch.Sound has := by
  refine ⟨h.scope, fun id => ?_, h.current, h.saved, h.module, h.global⟩
  exact (h.rooted id).of_steady (steady_touch s)

theorem Sound.modifyScope (h : s.Sound has) (id : ScopeId) {f : Scope → Scope}
    (hf : ∀ scope, scope.Sound has → (f scope).Sound has)
    (hparent : ∀ scope, (f scope).parent = scope.parent) : (s.modifyScope id f).Sound has where
  scope other := getD_modify_rec (h.scope other) fun _ => hf _ (h.scope other)
  rooted other := (h.rooted other).of_steady (s.steady_modifyScope id hparent)
  current := h.current
  saved := h.saved
  module := h.module
  global := h.global

theorem Sound.bind (h : s.Sound has) (id : ScopeId) (name : String) {b : Binding}
    (hb : b.type.Sound has) : (s.bind id name b).Sound has := by
  refine Sound.touch (h.modifyScope id ?_ fun _ => rfl)
  exact fun _ hs => { hs with bindings := hs.bindings.insert name hb }

theorem Sound.set (h : s.Sound has) (name : String) {t : Ty} (ht : t.Sound has)
    (confidence : Float) : (s.set name t confidence).Sound has :=
  h.bind _ name ht

theorem Sound.rebound (h : s.Sound has) (id : ScopeId) (name : String) {value : Ty}
    (hvalue : value.Sound has) (confidence : Float) :
    (s.rebound a id name value confidence).1.Sound has := by
  unfold Scopes.rebound
  split
  · exact hvalue
  · rename_i old sameScope hold
    split
    · exact hvalue
    · cases sameScope with
      | false => exact hvalue
      | true => exact Ty.sound_oneOf_pair (h.of_visible? hold) hvalue

theorem Sound.add (h : s.Sound has) (name : String) {value : Ty} (hvalue : value.Sound has)
    (confidence : Float) : (s.add a name value confidence).2.Sound has :=
  h.bind _ name (h.rebound _ name hvalue confidence)

theorem Sound.addAscribed (h : s.Sound has) (name : String) {ascribed value : Ty}
    (hascribed : ascribed.Sound has) (hvalue : value.Sound has) (confidence : Float) :
    (s.addAscribed a name ascribed value confidence).2.Sound has := by
  unfold Scopes.addAscribed
  split
  · exact h.add name hascribed confidence
  · split
    · exact h.add name hvalue confidence
    · exact h.add name hascribed confidence

theorem Sound.narrow (h : s.Sound has) (name : String) {t : Ty} (ht : t.Sound has) :
    (s.narrow name t).Sound has :=
  h.bind _ name ht

theorem Sound.update (h : s.Sound has) (name : String) {t : Ty} (ht : t.Sound has) :
    (s.update name t).Sound has := by
  unfold Scopes.update
  split
  · exact h.bind _ name ht
  · exact h.set name ht 1.0

theorem Sound.remove (h : s.Sound has) (name : String) : (s.remove name).2.Sound has := by
  unfold Scopes.remove
  split
  · refine Sound.touch (h.modifyScope _ ?_ fun _ => rfl)
    exact fun _ hs => { hs with bindings := hs.bindings.erase name }
  · exact h

theorem Sound.redirect (h : s.Sound has) (name : String) {id : ScopeId} (hid : has (.scope id)) :
    (s.redirect name id).Sound has := by
  refine h.modifyScope _ (fun scope hs => ?_) fun _ => rfl
  exact { hs with redirects := hs.redirects.insert name hid }

theorem Sound.declareGlobal (h : s.Sound has) (name : String) : (s.declareGlobal name).Sound has := by
  refine h.redirect name ?_
  unfold moduleScope
  cases hm : s.module with
  | none => exact h.global
  | some id => exact h.module id hm

theorem Sound.declareNonlocal (h : s.Sound has) (name : String) :
    (s.declareNonlocal name).Sound has := by
  unfold Scopes.declareNonlocal
  simp only
  split
  · rename_i id hid
    refine h.redirect name ?_
    have hmem := List.mem_of_find?_eq_some hid
    cases hparent : s.here.parent with
    | none =>
      rw [hparent] at hmem
      exact absurd hmem List.not_mem_nil
    | some parent =>
      rw [hparent] at hmem
      exact h.of_mem_walk ((h.scope s.current).parent parent hparent) hmem
  · exact h

theorem Sound.mergeBinding (h : s.Sound has) (name : String) {b : Binding} (hb : b.type.Sound has) :
    (mergeBinding a s name b).Sound has := by
  refine h.bind _ name ?_
  dsimp only
  split
  · rename_i existing hexisting
    split
    · exact Ty.sound_oneOf_pair (h.of_lookup hexisting) hb
    · exact hb
  · exact hb

theorem Sound.goInto (h : s.Sound has) {id : ScopeId} (hid : has (.scope id)) {saved : List ScopeId}
    (hsaved : ∀ id ∈ saved, has (.scope id)) : ({ s with current := id, saved } : Scopes).Sound has := by
  refine ⟨h.scope, fun id => ?_, hid, hsaved, h.module, h.global⟩
  exact (h.rooted id).of_all rfl

theorem Sound.exit (h : s.Sound has) : s.exit.Sound has := by
  unfold Scopes.exit
  split
  · rename_i parent hparent
    exact (h.goInto ((h.scope s.current).parent parent hparent) h.saved).touch
  · exact h

theorem Sound.exitFunction (h : s.Sound has) : s.exitFunction.Sound has := by
  have hsaved := h.saved
  unfold Scopes.exitFunction
  split
  · rename_i previous saved hs
    rw [hs] at hsaved
    obtain ⟨hprevious, hrest⟩ := List.forall_mem_cons.1 hsaved
    exact (h.goInto hprevious hrest).touch
  · exact h

theorem Sound.goTo (h : s.Sound has) {id : ScopeId} (hid : has (.scope id)) :
    (s.goTo id).Sound has :=
  (h.goInto hid (List.forall_mem_cons.2 ⟨h.current, h.saved⟩)).touch

theorem Sound.setModule (h : s.Sound has) {id : ScopeId} (hid : has (.scope id)) :
    (s.setModule id).Sound has := by
  refine ⟨h.scope, fun id => ?_, h.current, h.saved, fun m hm => ?_, h.global⟩
  · exact (h.rooted id).of_all rfl
  · rw [← Option.mem_some.1 hm]
    exact hid

theorem Sound.exitBranch (h : s.Sound has) (a : Arena) : (s.exitBranch a).Sound has := by
  unfold Scopes.exitBranch
  split
  · exact h
  · rename_i parent hparent
    refine Sound.touch (List.foldlRecOn _ _ (motive := Sound has) ?_ fun t ht entry hentry => ?_)
    · exact h.goInto ((h.scope s.current).parent parent hparent) h.saved
    · exact ht.mergeBinding entry.1 ((h.scope s.current).bindings entry (List.mem_filter.1 hentry).1)

theorem all_exit (s : Scopes) : s.exit.all = s.all := by
  unfold Scopes.exit
  split <;> rfl

theorem all_exitFunction (s : Scopes) : s.exitFunction.all = s.all := by
  unfold Scopes.exitFunction
  split <;> rfl

theorem size_exit (s : Scopes) : s.exit.all.size = s.all.size :=
  congrArg Array.size s.all_exit

theorem size_exitFunction (s : Scopes) : s.exitFunction.all.size = s.all.size :=
  congrArg Array.size s.all_exitFunction

theorem size_exitBranch (s : Scopes) (a : Arena) : (s.exitBranch a).all.size = s.all.size := by
  unfold Scopes.exitBranch
  split
  · rfl
  · exact List.foldlRecOn _ _ (motive := fun t : Scopes => t.all.size = s.all.size) rfl
      fun t ht entry _ => (t.steady_mergeBinding a entry.1 entry.2).size.trans ht

theorem rooted_alloc (hrooted : ∀ id, s.Rooted id)
    (hparents : ∀ id, ∀ p ∈ (s.scopeAt id).parent, p.val < s.all.size) {scope : Scope}
    (hscope : ∀ p ∈ scope.parent, p.val < s.all.size) (id : ScopeId) :
    (s.alloc scope).2.Rooted id := by
  have hold (id : ScopeId) (hid : id ≠ ⟨s.all.size⟩) :
      (s.alloc scope).2.scopeAt id = s.scopeAt id := by
    refine getD_push_rec (p := fun found => found = s.scopeAt id) (fun _ => rfl) fun heq => ?_
    exact absurd (congrArg ScopeId.mk heq) hid
  have hne {id : ScopeId} (hid : id.val < s.all.size) : id ≠ ⟨s.all.size⟩ := by
    rintro rfl
    exact Nat.lt_irrefl _ hid
  have hrest (id : ScopeId) (hid : id ≠ ⟨s.all.size⟩) : (s.alloc scope).2.Rooted id :=
    (hrooted id).of_parents (P := (· ≠ ⟨s.all.size⟩)) hid (fun id hid => by rw [hold id hid])
      fun id parent _ hp => hne (hparents id parent hp)
  by_cases hid : id = ⟨s.all.size⟩
  · subst hid
    have hnew : (s.alloc scope).2.scopeAt ⟨s.all.size⟩ = scope := getD_push_size _ _
    cases hparent : scope.parent with
    | none => exact .root ((congrArg Scope.parent hnew).trans hparent)
    | some parent =>
      exact .child ((congrArg Scope.parent hnew).trans hparent) (hrest parent (hne (hscope parent hparent)))
  · exact hrest id hid

theorem Sound.alloc (h : s.Sound has) (hrange : ∀ id, has (.scope id) → id.val < s.all.size)
    (hmono : ∀ e, has e → more e) {scope : Scope} (hscope : scope.Sound has) :
    (s.alloc scope).2.Sound more where
  scope id := getD_push_rec (fun _ => (h.scope id).mono hmono) fun _ => hscope.mono hmono
  rooted := rooted_alloc h.rooted (fun id p hp => hrange p ((h.scope id).parent p hp))
    fun p hp => hrange p (hscope.parent p hp)
  current := hmono _ h.current
  saved id hid := hmono _ (h.saved id hid)
  module id hid := hmono _ (h.module id hid)
  global := hmono _ h.global

section Enter

variable (h : s.Sound has) (hrange : ∀ id, has (.scope id) → id.val < s.all.size)
  (hmono : ∀ e, has e → more e) (hnew : more (.scope ⟨s.all.size⟩))
include h hrange hmono hnew

theorem Sound.enter (name : String) : (s.enter name).2.Sound more := by
  have hscope : Scope.Sound has { name, parent := some s.current } :=
    ⟨Table.all_empty, fun _ hp => Option.mem_some.1 hp ▸ h.current, Table.all_empty⟩
  have hall := h.alloc hrange hmono hscope
  exact (hall.goInto hnew hall.saved).touch

theorem Sound.enterFunction (name : String) (captured : ScopeId) {params : List (String × Ty)}
    (hparams : ∀ param ∈ params, param.2.Sound has) :
    (s.enterFunction name captured params).2.Sound more := by
  have houter := h.scope captured
  have hscope : Scope.Sound has
      { s.scopeAt captured with
        name, redirects := {}
        bindings := (s.scopeAt captured).bindings.insertMany
          (params.map fun param => (param.1, { type := param.2, confidence := 1.0 })) } := by
    refine ⟨houter.bindings.insertMany fun item hitem => ?_, houter.parent, Table.all_empty⟩
    obtain ⟨param, hparam, rfl⟩ := List.mem_map.1 hitem
    exact hparams param hparam
  have hall := h.alloc hrange hmono hscope
  exact (hall.goInto hnew (List.forall_mem_cons.2 ⟨hall.current, hall.saved⟩)).touch

end Enter

/-- A way outwards from scope to scope up to one without a parent. -/
def Outwards (s : Scopes) : List ScopeId → Prop
  | [] => False
  | [id] => (s.scopeAt id).parent = none
  | id :: next :: rest => (s.scopeAt id).parent = some next ∧ s.Outwards (next :: rest)

theorem Rooted.outwards {id : ScopeId} (h : s.Rooted id) : ∃ rest, s.Outwards (id :: rest) := by
  induction h with
  | root h => exact ⟨[], h⟩
  | child h _ ih =>
    obtain ⟨rest, hrest⟩ := ih
    exact ⟨_ :: rest, h, hrest⟩

theorem Outwards.unique {id : ScopeId} {xs ys : List ScopeId} (hx : s.Outwards (id :: xs))
    (hy : s.Outwards (id :: ys)) : xs = ys := by
  induction xs generalizing id ys with
  | nil =>
    cases ys with
    | nil => rfl
    | cons y ys => exact absurd (hy.1.symm.trans hx) nofun
  | cons x xs ih =>
    cases ys with
    | nil => exact absurd (hx.1.symm.trans hy) nofun
    | cons y ys =>
      obtain rfl : x = y := Option.some.inj (hx.1.symm.trans hy.1)
      rw [ih hx.2 hy.2]

theorem Outwards.of_append (inner : List ScopeId) {path : List ScopeId} {id : ScopeId}
    (h : s.Outwards (inner ++ id :: path)) : s.Outwards (id :: path) := by
  induction inner with
  | nil => exact h
  | cons x inner ih =>
    cases inner with
    | nil => exact h.2
    | cons y inner => exact ih h.2

theorem Outwards.nodup {path : List ScopeId} (h : s.Outwards path) : path.Nodup := by
  induction path with
  | nil => exact List.nodup_nil
  | cons id path ih =>
    have hrest : path.Nodup := by
      cases path with
      | nil => exact List.nodup_nil
      | cons next rest => exact ih h.2
    refine List.nodup_cons.2 ⟨fun hmem => ?_, hrest⟩
    obtain ⟨inner, rest, rfl⟩ := List.append_of_mem hmem
    have hagain : s.Outwards (id :: rest) := Outwards.of_append (id :: inner) h
    have hlength := congrArg List.length (hagain.unique h)
    simp only [List.length_append, List.length_cons] at hlength
    omega

theorem Outwards.ends {path : List ScopeId} (h : s.Outwards path) :
    ∃ inner outermost, path = inner ++ [outermost] ∧ (s.scopeAt outermost).parent = none := by
  induction path with
  | nil => exact h.elim
  | cons id path ih =>
    cases path with
    | nil => exact ⟨[], id, rfl, h⟩
    | cons next rest =>
      obtain ⟨inner, outermost, heq, hout⟩ := ih h.2
      exact ⟨id :: inner, outermost, by rw [heq, List.cons_append], hout⟩

theorem Outwards.walk {id : ScopeId} {path : List ScopeId} (h : s.Outwards (id :: path)) {steps : Nat}
    (hsteps : path.length < steps) : s.walk steps id = id :: path := by
  induction steps generalizing id path with
  | zero => exact absurd hsteps (Nat.not_lt_zero _)
  | succ steps ih =>
    cases path with
    | nil =>
      have hparent : (s.scopeAt id).parent = none := h
      rw [Scopes.walk, hparent]
    | cons next rest =>
      rw [Scopes.walk, h.1]
      exact congrArg (id :: ·) (ih h.2 (Nat.lt_of_succ_lt_succ hsteps))

/-- There are no more scopes around one that is there than there are scopes. -/
theorem Rooted.outwards_within {id : ScopeId} (h : s.Rooted id)
    (hparents : ∀ id, ∀ p ∈ (s.scopeAt id).parent, p.val < s.all.size) (hid : id.val < s.all.size) :
    ∃ path, s.Outwards (id :: path) ∧ path.length < s.all.size := by
  obtain ⟨path, hpath⟩ := h.outwards
  have hsub : (id :: path).map ScopeId.val ⊆ List.range s.all.size := by
    intro i hi
    obtain ⟨other, hother, rfl⟩ := List.mem_map.1 hi
    rw [← hpath.walk (Nat.lt_succ_self path.length)] at hother
    exact List.mem_range.2 <|
      forall_mem_walk (P := (·.val < s.all.size)) (fun id _ => hparents id) hid other hother
  have hnodup : ((id :: path).map ScopeId.val).Nodup := by
    refine List.Nodup.map ?_ hpath.nodup
    rintro ⟨i⟩ ⟨j⟩ hij
    exact congrArg ScopeId.mk hij
  have hlength := (List.subperm_of_subset hnodup hsub).length_le
  rw [List.length_map, List.length_cons, List.length_range] at hlength
  exact ⟨path, hpath, hlength⟩

theorem Sound.chain_ends (h : s.Sound has) (hrange : ∀ id, has (.scope id) → id.val < s.all.size)
    {id : ScopeId} (hid : has (.scope id)) :
    ∃ inner outermost, s.chain id = inner ++ [outermost] ∧ (s.scopeAt outermost).parent = none := by
  have hparents (id : ScopeId) : ∀ p ∈ (s.scopeAt id).parent, p.val < s.all.size :=
    fun p hp => hrange p ((h.scope id).parent p hp)
  obtain ⟨path, hpath, hlength⟩ := (h.rooted id).outwards_within hparents (hrange id hid)
  unfold chain
  rw [hpath.walk hlength]
  exact hpath.ends

end Scopes

end Credence

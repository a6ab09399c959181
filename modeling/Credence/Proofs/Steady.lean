import Credence.Check.Import
import Credence.Proofs.Access

namespace Credence

namespace Scopes

/-- Nothing but bindings and declarations has changed. -/
structure Steady (s t : Scopes) : Prop where
  current : t.current = s.current
  saved : t.saved = s.saved
  size : t.all.size = s.all.size
  parents : ∀ id, (t.scopeAt id).parent = (s.scopeAt id).parent

theorem Steady.refl (s : Scopes) : s.Steady s :=
  ⟨rfl, rfl, rfl, fun _ => rfl⟩

theorem Steady.trans {s t u : Scopes} (h : s.Steady t) (k : t.Steady u) : s.Steady u where
  current := k.current.trans h.current
  saved := k.saved.trans h.saved
  size := k.size.trans h.size
  parents id := (k.parents id).trans (h.parents id)

theorem steady_touch (s : Scopes) : s.Steady s.touch :=
  ⟨rfl, rfl, rfl, fun _ => rfl⟩

theorem scopeAt_of_all {s t : Scopes} (h : t.all = s.all) (id : ScopeId) : t.scopeAt id = s.scopeAt id := by
  rw [scopeAt, h]
  rfl

theorem scopeAt_modifyScope (s : Scopes) (id other : ScopeId) (f : Scope → Scope) :
    (s.modifyScope id f).scopeAt other =
      if id.val = other.val ∧ other.val < s.all.size then f (s.scopeAt other)
      else s.scopeAt other :=
  getD_modify s.all id.val other.val f default

theorem steady_modifyScope (s : Scopes) (id : ScopeId) {f : Scope → Scope}
    (h : ∀ scope, (f scope).parent = scope.parent) : s.Steady (s.modifyScope id f) where
  current := rfl
  saved := rfl
  size := by simp [modifyScope]
  parents other := by
    rw [scopeAt_modifyScope]
    split
    · exact h _
    · rfl

theorem steady_redirect (s : Scopes) (name : String) (id : ScopeId) :
    s.Steady (s.redirect name id) :=
  s.steady_modifyScope s.current fun _ => rfl

theorem steady_declareGlobal (s : Scopes) (name : String) : s.Steady (s.declareGlobal name) :=
  s.steady_redirect name s.moduleScope

theorem Steady.walk {s t : Scopes} (h : s.Steady t) (steps : Nat) (id : ScopeId) :
    t.walk steps id = s.walk steps id := by
  induction steps generalizing id with
  | zero => rfl
  | succ steps ih =>
    rw [Scopes.walk, Scopes.walk, h.parents id]
    cases (s.scopeAt id).parent with
    | none => rfl
    | some parent => exact congrArg (id :: ·) (ih parent)

theorem parent_mem_walk {s : Scopes} {steps : Nat} {start id parent : ScopeId} (hid : id ∈ s.walk steps start)
    (hparent : (s.scopeAt id).parent = some parent) : parent ∈ s.walk (steps + 1) start := by
  induction steps generalizing start with
  | zero => exact absurd hid List.not_mem_nil
  | succ steps ih =>
    rw [walk]
    refine List.mem_cons_of_mem _ ?_
    rcases List.mem_cons.1 hid with rfl | hid
    · rw [hparent]
      exact List.mem_cons_self
    · cases hnext : (s.scopeAt start).parent with
      | none =>
        rw [hnext] at hid
        exact absurd hid List.not_mem_nil
      | some next =>
        rw [hnext] at hid
        exact ih hid

/-- The scopes that a definition can capture: the current one, those around it, and the outermost one. -/
def Encloses (s : Scopes) (id : ScopeId) : Prop :=
  id = global ∨ ∃ steps, id ∈ s.walk steps s.current

theorem encloses_current (s : Scopes) : s.Encloses s.current :=
  .inr ⟨1, List.mem_cons_self⟩

theorem encloses_parent {s : Scopes} {id : ScopeId} (hid : id ∈ s.chain s.current) :
    s.Encloses ((s.scopeAt id).parent.getD global) := by
  cases hparent : (s.scopeAt id).parent with
  | none => exact .inl rfl
  | some parent => exact .inr ⟨_, parent_mem_walk hid hparent⟩

/-- The scopes to which the current one leads: itself, those around it and those of its declarations. -/
inductive Reaches (s : Scopes) (id : ScopeId) : Prop
  | around (steps : Nat) (h : id ∈ s.walk steps s.current)
  | declared (name : String) (h : s.here.redirects.get? name = some id)

theorem reaches_current (s : Scopes) : s.Reaches s.current :=
  .around 1 List.mem_cons_self

theorem reaches_target (s : Scopes) (name : String) : s.Reaches (s.target name) := by
  unfold target
  cases h : s.here.redirects.get? name with
  | none => exact s.reaches_current
  | some id => exact .declared name h

theorem reaches_defining {s : Scopes} {name : String} {id : ScopeId} (h : s.defining? name = some id) :
    s.Reaches id :=
  .around _ (List.mem_of_find?_eq_some h)

/-- Bindings have changed only where the current scope leads, and declarations only in the current scope,
which leads to nothing new. -/
structure Confined (s t : Scopes) : Prop extends Steady s t where
  bindings : ∀ id, (t.scopeAt id).bindings = (s.scopeAt id).bindings ∨ s.Reaches id
  redirects : ∀ id, id ≠ s.current → (t.scopeAt id).redirects = (s.scopeAt id).redirects
  declared : ∀ name id, t.here.redirects.get? name = some id → s.Reaches id

theorem Confined.refl (s : Scopes) : s.Confined s :=
  { Steady.refl s with
    bindings := fun _ => .inl rfl
    redirects := fun _ _ => rfl
    declared := fun name _ h => .declared name h }

theorem Confined.reaches {s t : Scopes} (h : s.Confined t) {id : ScopeId} (hid : t.Reaches id) :
    s.Reaches id := by
  cases hid with
  | around steps hmem =>
    rw [h.walk, h.current] at hmem
    exact .around steps hmem
  | declared name hget => exact h.declared name id hget

theorem Confined.trans {s t u : Scopes} (h : s.Confined t) (k : t.Confined u) : s.Confined u :=
  { h.toSteady.trans k.toSteady with
    bindings := fun id => by
      rcases k.bindings id with hsame | hreaches
      · rw [hsame]
        exact h.bindings id
      · exact .inr (h.reaches hreaches)
    redirects := fun id hid => (k.redirects id (h.current.symm ▸ hid)).trans (h.redirects id hid)
    declared := fun name id hget => h.reaches (k.declared name id hget) }

theorem Confined.touch {s t : Scopes} (h : s.Confined t) : s.Confined t.touch :=
  { h.toSteady.trans (steady_touch t) with
    bindings := h.bindings
    redirects := h.redirects
    declared := h.declared }

theorem confined_modifyScope {s : Scopes} {id : ScopeId} (hid : s.Reaches id) {f : Scope → Scope}
    (hparent : ∀ scope, (f scope).parent = scope.parent)
    (hredirects : ∀ scope, (f scope).redirects = scope.redirects) :
    s.Confined (s.modifyScope id f).touch := by
  have hsame (other : ScopeId) :
      ((s.modifyScope id f).scopeAt other).redirects = (s.scopeAt other).redirects := by
    rw [scopeAt_modifyScope]
    split
    · exact hredirects _
    · rfl
  refine
    { (s.steady_modifyScope id hparent).trans (steady_touch _) with
      bindings := fun other => ?_
      redirects := fun other _ => hsame other
      declared := fun name other hget => ?_ }
  · change ((s.modifyScope id f).scopeAt other).bindings = _ ∨ _
    rw [scopeAt_modifyScope]
    split
    · rename_i h
      obtain ⟨i⟩ := id
      obtain ⟨j⟩ := other
      obtain rfl : i = j := h.1
      exact .inr hid
    · exact .inl rfl
  · change ((s.modifyScope id f).scopeAt s.current).redirects.get? name = some other at hget
    rw [hsame] at hget
    exact .declared name hget

theorem confined_bind {s : Scopes} {id : ScopeId} (hid : s.Reaches id) (name : String) (b : Binding) :
    s.Confined (s.bind id name b) :=
  confined_modifyScope hid (fun _ => rfl) fun _ => rfl

theorem confined_set (s : Scopes) (name : String) (t : Ty) (confidence : Float) :
    s.Confined (s.set name t confidence) :=
  confined_bind (s.reaches_target name) name _

theorem confined_add (s : Scopes) (a : Arena) (name : String) (t : Ty) (confidence : Float) :
    s.Confined (s.add a name t confidence).2 :=
  confined_bind (s.reaches_target name) name _

theorem confined_addAscribed (s : Scopes) (a : Arena) (name : String) (ascribed t : Ty)
    (confidence : Float) : s.Confined (s.addAscribed a name ascribed t confidence).2 := by
  unfold addAscribed
  split
  · exact s.confined_add a name ascribed confidence
  · split
    · exact s.confined_add a name t confidence
    · exact s.confined_add a name ascribed confidence

theorem confined_narrow (s : Scopes) (name : String) (t : Ty) : s.Confined (s.narrow name t) :=
  confined_bind s.reaches_current name _

theorem confined_update (s : Scopes) (name : String) (t : Ty) : s.Confined (s.update name t) := by
  unfold update
  split
  · rename_i id h
    refine confined_bind ?_ name _
    rcases Option.or_eq_some_iff.1 h with h | ⟨-, h⟩
    · exact .declared name h
    · exact reaches_defining h
  · exact s.confined_set name t 1.0

theorem confined_remove (s : Scopes) (name : String) : s.Confined (s.remove name).2 := by
  unfold remove
  split
  · rename_i id h
    exact confined_modifyScope (reaches_defining h) (fun _ => rfl) fun _ => rfl
  · exact .refl s

theorem confined_mergeBinding (a : Arena) (s : Scopes) (name : String) (b : Binding) :
    s.Confined (mergeBinding a s name b) :=
  confined_bind (s.reaches_target name) name _

theorem confined_mergeBindings (a : Arena) (bindings : List (String × Binding)) (s : Scopes) :
    s.Confined (bindings.foldl (fun s entry => mergeBinding a s entry.1 entry.2) s) := by
  induction bindings generalizing s with
  | nil => exact .refl s
  | cons entry rest ih => exact (confined_mergeBinding a s entry.1 entry.2).trans (ih _)

theorem steady_mergeBindings (a : Arena) (bindings : List (String × Binding)) (s : Scopes) :
    s.Steady (bindings.foldl (fun s entry => mergeBinding a s entry.1 entry.2) s) :=
  (confined_mergeBindings a bindings s).toSteady

theorem redirects_redirect (s : Scopes) (name : String) (target : ScopeId) {id : ScopeId}
    (h : id ≠ s.current) : ((s.redirect name target).scopeAt id).redirects = (s.scopeAt id).redirects := by
  rw [redirect, scopeAt_modifyScope, if_neg]
  exact fun hsame => h (by cases id; cases hs : s.current; simp_all)

theorem confined_redirect {s : Scopes} (name : String) {id : ScopeId} (hid : s.Reaches id) :
    s.Confined (s.redirect name id) := by
  refine
    { s.steady_redirect name id with
      bindings := fun other => .inl ?_
      redirects := fun other hother => s.redirects_redirect name id hother
      declared := fun other target hget => ?_ }
  · rw [redirect, scopeAt_modifyScope]
    split <;> rfl
  · change ((s.redirect name id).scopeAt s.current).redirects.get? other = some target at hget
    rw [redirect, scopeAt_modifyScope] at hget
    split at hget
    · rw [Table.get?_insert] at hget
      split at hget
      · exact Option.some.inj hget ▸ hid
      · exact .declared other hget
    · exact .declared other hget

theorem confined_declareNonlocal (s : Scopes) (name : String) :
    s.Confined (s.declareNonlocal name) := by
  unfold declareNonlocal
  simp only
  split
  · rename_i id h
    refine confined_redirect name ?_
    have hmem := List.mem_of_find?_eq_some h
    cases hparent : s.here.parent with
    | none =>
      rw [hparent] at hmem
      exact absurd hmem List.not_mem_nil
    | some parent =>
      rw [hparent] at hmem
      refine .around (s.all.size + 1) ?_
      rw [walk, ← here, hparent]
      exact List.mem_cons_of_mem _ hmem
  · exact .refl s

theorem steady_set (s : Scopes) (name : String) (t : Ty) (confidence : Float) :
    s.Steady (s.set name t confidence) :=
  (s.confined_set name t confidence).toSteady

theorem steady_add (s : Scopes) (a : Arena) (name : String) (t : Ty) (confidence : Float) :
    s.Steady (s.add a name t confidence).2 :=
  (s.confined_add a name t confidence).toSteady

theorem steady_addAscribed (s : Scopes) (a : Arena) (name : String) (ascribed t : Ty)
    (confidence : Float) : s.Steady (s.addAscribed a name ascribed t confidence).2 :=
  (s.confined_addAscribed a name ascribed t confidence).toSteady

theorem steady_narrow (s : Scopes) (name : String) (t : Ty) : s.Steady (s.narrow name t) :=
  (s.confined_narrow name t).toSteady

theorem steady_update (s : Scopes) (name : String) (t : Ty) : s.Steady (s.update name t) :=
  (s.confined_update name t).toSteady

theorem steady_remove (s : Scopes) (name : String) : s.Steady (s.remove name).2 :=
  (s.confined_remove name).toSteady

theorem steady_declareNonlocal (s : Scopes) (name : String) :
    s.Steady (s.declareNonlocal name) :=
  (s.confined_declareNonlocal name).toSteady

theorem steady_mergeBinding (a : Arena) (s : Scopes) (name : String) (b : Binding) :
    s.Steady (mergeBinding a s name b) :=
  (confined_mergeBinding a s name b).toSteady

end Scopes

namespace Arena

theorem merging_functions (a : Arena) : Merging (fun b => b.functions = a.functions) fun _ _ _ => True :=
  merging_of_keep fun _ _ _ h => h

theorem functions_classLookup (a : Arena) (id : ClassId) (name : String) :
    (a.classLookup id name).2.functions = a.functions :=
  a.merging_functions.classLookup rfl id name

theorem functions_objectLookup (a : Arena) (id : ObjectId) (name : String) :
    (a.objectLookup id name).2.functions = a.functions :=
  a.merging_functions.objectLookup rfl id name

theorem functions_readStep {a b : Arena} {t : Ty} {name : String} (h : a.ReadStep t name b) :
    b.functions = a.functions := by
  cases h with
  | none => rfl
  | cls id _ => exact a.functions_classLookup id name
  | object id _ => exact a.functions_objectLookup id name
  | miss id _ => exact a.functions_objectLookup id name

/-- Apart from the text of documentation, which all values have, values are read each in their own way. -/
theorem readAttribute_eq_readSingle (a : Arena) {t : Ty} (hknown : t.isUnknown = false) (hsingle : t.isUnion = false)
    {name : String} (hname : name ≠ "__doc__") (confidence : Float) :
    a.readAttribute t name confidence = a.readSingle t name confidence := by
  rw [readAttribute.eq_def, hknown, if_neg Bool.false_ne_true, if_neg (by simpa using hname)]
  cases t with
  | union u => cases hsingle
  | _ => rfl

theorem functions_readAttribute (a : Arena) (t : Ty) (name : String) (confidence : Float) :
    (a.readAttribute t name confidence).arena.functions = a.functions := by
  refine readAttribute_of_single (I := fun b => b.functions = a.functions) (fun _ hstep h => ?_) rfl confidence
  exact (functions_readStep hstep).trans h

theorem functions_setAttribute (a : Arena) (t : Ty) (name : String) (value : Ty) :
    (a.setAttribute t name value).2.functions = a.functions := by
  apply setAttribute_of_single (I := fun b => b.functions = a.functions) _ rfl
  intro s b c _ hstep hb
  cases hstep with
  | none => exact hb
  | cls id _ => exact (b.functions_classLookup id name).trans hb
  | object id _ => exact (b.functions_objectLookup id name).trans hb

theorem functions_deleteAttribute (a : Arena) (t : Ty) (name : String) :
    (a.deleteAttribute t name).2.functions = a.functions := by
  cases t <;> rfl

theorem functions_replaceAttribute (a : Arena) (t : Ty) (name : String) (value : Ty) :
    (a.replaceAttribute t name value).functions = a.functions := by
  cases t <;> rfl

theorem functions_component (a : Arena) (t : Ty) (part : String) :
    (a.component t part).2.functions = a.functions := by
  cases t with
  | classObj id => exact a.functions_classLookup id part
  | object id => exact a.functions_objectLookup id part
  | _ => rfl

end Arena

theorem Scopes.functions_findDotted (s : Scopes) (a : Arena) (name : String) :
    (s.findDotted a name).2.functions = a.functions := by
  unfold findDotted
  split
  · rfl
  · rename_i first rest _
    suffices ∀ (rest : List String) (state : Ty × Arena), state.2.functions = a.functions →
        (rest.foldl (fun state part => state.2.component state.1 part) state).2.functions =
          a.functions from this rest _ rfl
    intro rest
    induction rest with
    | nil => exact fun state h => h
    | cons part rest ih =>
      intro state h
      exact ih _ ((state.2.functions_component state.1 part).trans h)

end Credence

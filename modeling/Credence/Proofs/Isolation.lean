import Credence.Proofs.Balance
import Credence.Proofs.Rooted

namespace Credence.Scopes

/-- A change of a binding. -/
inductive Edit where
  | add (a : Arena) (name : String) (value : Ty) (confidence : Float)
  | addAscribed (a : Arena) (name : String) (ascribed value : Ty) (confidence : Float)
  | set (name : String) (type : Ty) (confidence : Float)
  | narrow (name : String) (type : Ty)
  | update (name : String) (type : Ty)
  | remove (name : String)

def Edit.apply (s : Scopes) : Edit → Scopes
  | .add a name value confidence => (s.add a name value confidence).2
  | .addAscribed a name ascribed value confidence => (s.addAscribed a name ascribed value confidence).2
  | .set name type confidence => s.set name type confidence
  | .narrow name type => s.narrow name type
  | .update name type => s.update name type
  | .remove name => (s.remove name).2

/-- What is entered and left again. -/
inductive Bracket where
  | block (name : String)
  | branch (name : String) (a : Arena)
  | call (name : String) (captured : ScopeId) (params : List (String × Ty))

namespace Bracket

def enter (s : Scopes) : Bracket → Scopes
  | block name | branch name _ => (s.enter name).2
  | call name captured params => (s.enterFunction name captured params).2

def leave (s : Scopes) : Bracket → Scopes
  | block _ => s.exit
  | branch _ a => s.exitBranch a
  | call .. => s.exitFunction

end Bracket

/-- A sequence of operations in which all that is entered is left again, the latest first. -/
inductive Sequence where
  | done
  | edit (e : Edit) (rest : Sequence)
  | within (b : Bracket) (body rest : Sequence)

def Sequence.run : Sequence → Scopes → Scopes
  | done, s => s
  | edit e rest, s => rest.run (e.apply s)
  | within b body rest, s => rest.run (b.leave (body.run (b.enter s)))

/-- A name that is updated or removed is bound in a new scope, if it is bound at all. -/
def Edit.Local (base : Nat) (s : Scopes) : Edit → Prop
  | .update name _ | .remove name => ∀ id ∈ s.defining? name, base ≤ id.val
  | _ => True

/-- All names that are updated or removed on the way are bound in new scopes. -/
def Sequence.Local (base : Nat) : Sequence → Scopes → Prop
  | done, _ => True
  | edit e rest, s => e.Local base s ∧ rest.Local base (e.apply s)
  | within b body rest, s =>
    body.Local base (b.enter s) ∧ rest.Local base (b.leave (body.run (b.enter s)))

instance Edit.decidableLocal (base : Nat) (s : Scopes) : ∀ e : Edit, Decidable (e.Local base s)
  | .update name _ | .remove name =>
    inferInstanceAs (Decidable (∀ id ∈ s.defining? name, base ≤ id.val))
  | .add .. | .addAscribed .. | .set .. | .narrow .. => inferInstanceAs (Decidable True)

instance Sequence.decidableLocal (base : Nat) :
    ∀ (q : Sequence) (s : Scopes), Decidable (q.Local base s)
  | done, _ => inferInstanceAs (Decidable True)
  | edit _ rest, _ =>
    have := rest.decidableLocal base
    inferInstanceAs (Decidable (_ ∧ _))
  | within _ body rest, _ =>
    have := body.decidableLocal base
    have := rest.decidableLocal base
    inferInstanceAs (Decidable (_ ∧ _))

/-- A run stands in a new scope, and no declarations lead out of the new scopes. -/
structure Fresh (base : Nat) (s : Scopes) : Prop where
  size : base ≤ s.all.size
  current : base ≤ s.current.val
  redirects : ∀ id : ScopeId, base ≤ id.val → (s.scopeAt id).redirects = {}

def Spares (base : Nat) (s t : Scopes) : Prop :=
  ∀ id : ScopeId, id.val < base → t.scopeAt id = s.scopeAt id

/-- A run has come back to where it stood, in a new scope, and has left the old scopes alone. -/
structure Returns (base : Nat) (s t : Scopes) : Prop where
  kept : s.Kept t
  fresh : t.Fresh base
  spares : s.Spares base t

variable {base : Nat} {s t u : Scopes}

theorem Fresh.returns (h : s.Fresh base) : s.Returns base s :=
  ⟨.refl s, h, fun _ _ => rfl⟩

theorem Returns.trans (h : s.Returns base t) (k : t.Returns base u) : s.Returns base u where
  kept := h.kept.trans k.kept
  fresh := k.fresh
  spares id hid := (k.spares id hid).trans (h.spares id hid)

theorem Fresh.modifyScope (h : s.Fresh base) {id : ScopeId} (hid : base ≤ id.val) {f : Scope → Scope}
    (hparent : ∀ scope, (f scope).parent = scope.parent)
    (hredirects : ∀ scope, (f scope).redirects = scope.redirects) :
    s.Returns base (s.modifyScope id f).touch where
  kept := ((s.steady_modifyScope id hparent).trans (steady_touch _)).kept
  fresh :=
    { size := Nat.le_trans h.size (s.steady_modifyScope id hparent).size.ge
      current := h.current
      redirects := fun other hother => by
        change ((s.modifyScope id f).scopeAt other).redirects = {}
        rw [scopeAt_modifyScope]
        split
        · exact (hredirects _).trans (h.redirects other hother)
        · exact h.redirects other hother }
  spares other hother := by
    change (s.modifyScope id f).scopeAt other = _
    rw [scopeAt_modifyScope, if_neg (by omega)]

theorem Fresh.bind (h : s.Fresh base) {id : ScopeId} (hid : base ≤ id.val) (name : String) (b : Binding) :
    s.Returns base (s.bind id name b) :=
  h.modifyScope hid (fun _ => rfl) fun _ => rfl

theorem Fresh.target (h : s.Fresh base) (name : String) : s.target name = s.current := by
  rw [Scopes.target, here, h.redirects s.current h.current]
  rfl

theorem Fresh.bindTarget (h : s.Fresh base) (name : String) (b : Binding) :
    s.Returns base (s.bind (s.target name) name b) :=
  h.bind (h.target name ▸ h.current) name b

theorem Fresh.addAscribed (h : s.Fresh base) (a : Arena) (name : String) (ascribed value : Ty)
    (confidence : Float) : s.Returns base (s.addAscribed a name ascribed value confidence).2 := by
  unfold Scopes.addAscribed
  split
  · exact h.bindTarget name _
  · split
    · exact h.bindTarget name _
    · exact h.bindTarget name _

theorem Fresh.update (h : s.Fresh base) {name : String} (hlocal : ∀ id ∈ s.defining? name, base ≤ id.val)
    (type : Ty) : s.Returns base (s.update name type) := by
  have hnone : s.here.redirects.get? name = none := by
    rw [here, h.redirects s.current h.current]
    rfl
  rw [Scopes.update, hnone, Option.none_or]
  split
  · rename_i id hid
    exact h.bind (hlocal id hid) name _
  · exact h.bindTarget name _

theorem Fresh.remove (h : s.Fresh base) {name : String} (hlocal : ∀ id ∈ s.defining? name, base ≤ id.val) :
    s.Returns base (s.remove name).2 := by
  unfold Scopes.remove
  split
  · rename_i id hid
    exact h.modifyScope (hlocal id hid) (fun _ => rfl) fun _ => rfl
  · exact h.returns

theorem Edit.Local.returns {e : Edit} (he : e.Local base s) (h : s.Fresh base) :
    s.Returns base (e.apply s) := by
  cases e with
  | add a name value confidence => exact h.bindTarget name _
  | addAscribed a name ascribed value confidence => exact h.addAscribed a name ascribed value confidence
  | set name type confidence => exact h.bindTarget name _
  | narrow name type => exact h.bind h.current name _
  | update name type => exact h.update he type
  | remove name => exact h.remove he

theorem Fresh.of_push {scope : Scope} (hsize : base ≤ s.all.size)
    (hold : ∀ id : ScopeId, base ≤ id.val → (s.scopeAt id).redirects = {})
    (hall : t.all = s.all.push scope) (hcurrent : t.current = ⟨s.all.size⟩)
    (hredirects : scope.redirects = {}) : t.Fresh base where
  size := by
    rw [hall, Array.size_push]
    exact Nat.le_succ_of_le hsize
  current := hcurrent ▸ hsize
  redirects id hid := by
    rw [scopeAt, hall]
    exact getD_push_rec (p := fun scope : Scope => scope.redirects = {}) (fun _ => hold id hid)
      fun _ => hredirects

theorem Spares.of_push {scope : Scope} (hsize : base ≤ s.all.size) (hall : t.all = s.all.push scope) :
    s.Spares base t :=
  fun _ hid => scopeAt_of_push (Nat.lt_of_lt_of_le hid hsize) hall

theorem Fresh.enter (h : s.Fresh base) (b : Bracket) : (b.enter s).Fresh base := by
  cases b with
  | block name | branch name a => exact .of_push h.size h.redirects rfl rfl rfl
  | call name captured params => exact .of_push h.size h.redirects rfl rfl rfl

theorem Fresh.spares_enter (h : s.Fresh base) (b : Bracket) : s.Spares base (b.enter s) := by
  cases b with
  | block name | branch name a => exact .of_push h.size rfl
  | call name captured params => exact .of_push h.size rfl

theorem Fresh.mergeBindings (h : s.Fresh base) (a : Arena) (bindings : List (String × Binding)) :
    s.Returns base (bindings.foldl (fun s entry => mergeBinding a s entry.1 entry.2) s) := by
  induction bindings generalizing s with
  | nil => exact h.returns
  | cons entry rest ih =>
    have hentry : s.Returns base (mergeBinding a s entry.1 entry.2) := h.bindTarget entry.1 _
    exact hentry.trans (ih hentry.fresh)

theorem Fresh.returns_of_all (h : s.Fresh base) (hkept : s.Kept u) (ht : t.Fresh base)
    (hold : s.Spares base t) (hall : u.all = t.all) : s.Returns base u := by
  have hsame (id : ScopeId) : u.scopeAt id = t.scopeAt id := scopeAt_of_all hall id
  refine ⟨hkept, ⟨hall ▸ ht.size, hkept.current ▸ h.current, fun id hid => ?_⟩, fun id hid => ?_⟩
  · rw [hsame, ht.redirects id hid]
  · rw [hsame, hold id hid]

theorem Fresh.exitBranch (h : s.Fresh base) {name : String} (ht : (s.enter name).2.Returns base t)
    (hold : s.Spares base t) (a : Arena) : s.Returns base (t.exitBranch a) := by
  let outside : Scopes := { t with current := s.current }
  have houtside : outside.Fresh base := ⟨ht.fresh.size, h.current, ht.fresh.redirects⟩
  have hmerged := houtside.mergeBindings a (t.here.bindings.entries.filter fun entry => !entry.2.narrowed)
  refine h.returns_of_all (ht.kept.exitBranch a) hmerged.fresh
    (fun id hid => (hmerged.spares id hid).trans (hold id hid)) ?_
  rw [Scopes.exitBranch, ht.kept.parent_of_enter]
  rfl

theorem Fresh.leave (h : s.Fresh base) (b : Bracket) (ht : (b.enter s).Returns base t) :
    s.Returns base (b.leave t) := by
  have hold : s.Spares base t := fun id hid => (ht.spares id hid).trans (h.spares_enter b id hid)
  cases b with
  | block name => exact h.returns_of_all ht.kept.exit ht.fresh hold t.all_exit
  | branch name a => exact h.exitBranch ht hold a
  | call name captured params => exact h.returns_of_all ht.kept.exitFunction ht.fresh hold t.all_exitFunction

theorem Sequence.Local.returns {q : Sequence} (hq : q.Local base s) (h : s.Fresh base) :
    s.Returns base (q.run s) := by
  induction q generalizing s with
  | done => exact h.returns
  | edit e rest ih =>
    obtain ⟨he, hrest⟩ := hq
    have hedit := he.returns h
    exact hedit.trans (ih hrest hedit.fresh)
  | within b body rest ihbody ihrest =>
    obtain ⟨hbody, hrest⟩ := hq
    have hwithin := h.leave b (ihbody hbody (h.enter b))
    exact hwithin.trans (ihrest hrest hwithin.fresh)

theorem fresh_enterFunction (s : Scopes) (name : String) (captured : ScopeId) (params : List (String × Ty)) :
    (s.enterFunction name captured params).2.Fresh s.all.size := by
  refine .of_push (Nat.le_refl _) (fun id hid => ?_) rfl rfl rfl
  rw [scopeAt, getD_of_not_lt (Nat.not_lt.2 hid)]
  rfl

/-- Whatever a call enters, leaves and binds, as long as it updates and removes only names that are bound in
scopes that have been made meanwhile: after it a run stands where it stood, with the same scopes to return
to, and each scope from before has the same bindings, the same parent and the same declarations. -/
theorem call_isolated (s : Scopes) (name : String) (captured : ScopeId) (params : List (String × Ty))
    (body : Sequence) (hbody : body.Local s.all.size (s.enterFunction name captured params).2) :
    let t := (body.run (s.enterFunction name captured params).2).exitFunction
    t.current = s.current ∧ t.saved = s.saved ∧
      ∀ id : ScopeId, id.val < s.all.size → t.scopeAt id = s.scopeAt id := by
  have hrun := hbody.returns (s.fresh_enterFunction name captured params)
  have hkept := hrun.kept.exitFunction
  refine ⟨hkept.current, hkept.saved, fun id hid => ?_⟩
  calc (body.run (s.enterFunction name captured params).2).exitFunction.scopeAt id
      = (body.run (s.enterFunction name captured params).2).scopeAt id := by
        rw [scopeAt, all_exitFunction]
        rfl
    _ = (s.enterFunction name captured params).2.scopeAt id := hrun.spares id hid
    _ = s.scopeAt id := scopeAt_of_push hid rfl

/-- The body of a function that updates its parameter, in a branch as well, and then makes a call in which a
copy of the parameter is removed. -/
def updatingParameter : Sequence :=
  .edit (.update "x" .str) <|
    .within (.branch "<if>" {}) (.edit (.add {} "y" .int 0.5) (.edit (.update "x" .int) .done)) <|
      .within (.call "g" ⟨1⟩ []) (.edit (.remove "x") .done) .done

theorem isolated_updating_parameter :
    let s := ({} : Scopes).set "x" .int 1.0
    let started := (s.enterFunction "f" ⟨0⟩ [("x", .int)]).2
    updatingParameter.Local s.all.size started ∧
      (updatingParameter.run started).exitFunction.current = s.current ∧
      (updatingParameter.run started).exitFunction.scopeAt ⟨0⟩ = s.scopeAt ⟨0⟩ := by
  intro s started
  have hlocal : updatingParameter.Local s.all.size started := by decide
  obtain ⟨hcurrent, -, hold⟩ := s.call_isolated "f" ⟨0⟩ [("x", .int)] updatingParameter hlocal
  exact ⟨hlocal, hcurrent, hold ⟨0⟩ (by decide)⟩

end Credence.Scopes

import Credence.Proofs.Intake

namespace Credence

/-- A name is declared global somewhere in a block, or in the body of a definition there. -/
inductive DeclaresGlobal : List Stmt → Prop
  | here {body : List Stmt} {s : Stmt} {names : List String} (hs : s ∈ body)
    (h : s.form = .globalNames names) : DeclaresGlobal body
  | block {body b : List Stmt} {s : Stmt} (hs : s ∈ body) (hb : b ∈ s.blocks) (h : DeclaresGlobal b) :
    DeclaresGlobal body
  | definition {body : List Stmt} {s : Stmt} (hs : s ∈ body) (h : DeclaresGlobal s.definitionBody) :
    DeclaresGlobal body

def FunctionBody.DeclaresGlobal : FunctionBody → Prop
  | .statements definition => Credence.DeclaresGlobal definition.body
  | .lambda _ => False

namespace Scopes

variable {s t u : Scopes} {m id : ScopeId}

structure Grown (s t : Scopes) : Prop where
  size : s.all.size ≤ t.all.size
  parents : ∀ id : ScopeId, id.val < s.all.size → (t.scopeAt id).parent = (s.scopeAt id).parent

theorem Kept.grown (h : s.Kept t) : s.Grown t :=
  ⟨h.size, h.parents⟩

theorem Grown.of_all (h : t.all = s.all) : s.Grown t := by
  refine ⟨Nat.le_of_eq (congrArg Array.size h.symm), fun id _ => ?_⟩
  rw [scopeAt_of_all h id]

theorem Grown.of_push {scope : Scope} (h : t.all = s.all.push scope) : s.Grown t := by
  constructor
  · rw [h, Array.size_push]
    exact Nat.le_succ _
  · intro id hid
    rw [scopeAt_of_push hid h]

theorem Grown.trans (h : s.Grown t) (k : t.Grown u) : s.Grown u where
  size := Nat.le_trans h.size k.size
  parents id hid := (k.parents id (Nat.lt_of_lt_of_le hid h.size)).trans (h.parents id hid)

/-- The way outwards from a scope comes to its end without another one. -/
inductive Avoids (s : Scopes) (m : ScopeId) : ScopeId → Prop
  | root {id : ScopeId} (hid : id.val < s.all.size) (hne : id ≠ m) (h : (s.scopeAt id).parent = none) :
    Avoids s m id
  | child {id parent : ScopeId} (hid : id.val < s.all.size) (hne : id ≠ m)
    (h : (s.scopeAt id).parent = some parent) (hp : Avoids s m parent) : Avoids s m id

namespace Avoids

theorem ne (h : s.Avoids m id) : id ≠ m := by
  cases h <;> assumption

theorem lt (h : s.Avoids m id) : id.val < s.all.size := by
  cases h <;> assumption

theorem parent (h : s.Avoids m id) : ∀ p ∈ (s.scopeAt id).parent, s.Avoids m p := by
  intro p hp
  cases h with
  | root _ _ hnone => exact absurd (hnone.symm.trans hp) nofun
  | child _ _ hparent houter => exact Option.some.inj (hparent.symm.trans hp) ▸ houter

theorem of_parent (hid : id.val < s.all.size) (hne : id ≠ m)
    (h : ∀ p ∈ (s.scopeAt id).parent, s.Avoids m p) : s.Avoids m id := by
  cases hparent : (s.scopeAt id).parent with
  | none => exact .root hid hne hparent
  | some p => exact .child hid hne hparent (h p hparent)

theorem grown (h : s.Avoids m id) (hg : s.Grown t) : t.Avoids m id := by
  induction h with
  | root hid hne hnone => exact .root (Nat.lt_of_lt_of_le hid hg.size) hne ((hg.parents _ hid).trans hnone)
  | child hid hne hparent _ ih =>
    exact .child (Nat.lt_of_lt_of_le hid hg.size) hne ((hg.parents _ hid).trans hparent) ih

theorem of_mem_walk (h : s.Avoids m id) {steps : Nat} {other : ScopeId} (hmem : other ∈ s.walk steps id) :
    s.Avoids m other :=
  forall_mem_walk (P := s.Avoids m) (fun _ hid => hid.parent) h other hmem

end Avoids

/-- A scope other than the outermost one. -/
structure Hosts (s : Scopes) (m : ScopeId) : Prop where
  inside : m.val < s.all.size
  global : s.Avoids m global

theorem Hosts.grown (h : s.Hosts m) (hg : s.Grown t) : t.Hosts m :=
  ⟨Nat.lt_of_lt_of_le h.inside hg.size, h.global.grown hg⟩

/-- A run stands where neither the scopes around nor a declaration lead to a scope. -/
structure Clear (s : Scopes) (m : ScopeId) : Prop where
  current : s.Avoids m s.current
  declared : ∀ name, s.here.redirects.get? name ≠ some m

def DeclaresHere (s t : Scopes) : Prop :=
  ∀ id : ScopeId, id.val < s.all.size → id ≠ s.current → (t.scopeAt id).redirects = (s.scopeAt id).redirects

def DeclaresNothing (s t : Scopes) : Prop :=
  ∀ id : ScopeId, id.val < s.all.size → (t.scopeAt id).redirects = (s.scopeAt id).redirects

theorem DeclaresNothing.of_all (h : t.all = s.all) : s.DeclaresNothing t :=
  fun id _ => congrArg Scope.redirects (scopeAt_of_all h id)

theorem DeclaresNothing.here (h : s.DeclaresNothing t) : s.DeclaresHere t :=
  fun id hid _ => h id hid

theorem DeclaresHere.trans (h : s.DeclaresHere t) (hkept : s.Kept t) (k : t.DeclaresHere u) :
    s.DeclaresHere u := by
  intro id hid hne
  have hstill := k id (Nat.lt_of_lt_of_le hid hkept.size) (hkept.current.symm ▸ hne)
  exact hstill.trans (h id hid hne)

theorem DeclaresHere.of_push {scope : Scope} (hall : t.all = s.all.push scope)
    (hcurrent : t.current = ⟨s.all.size⟩) (h : t.DeclaresHere u) : s.DeclaresNothing u := by
  intro id hid
  have hne : id ≠ t.current := by
    rw [hcurrent]
    rintro rfl
    exact Nat.lt_irrefl _ hid
  rw [h id (Nat.lt_of_lt_of_le hid (Grown.of_push hall).size) hne, scopeAt_of_push hid hall]

namespace Clear

variable (h : s.Clear m)
include h

theorem ne_of_reaches (hid : s.Reaches id) : id ≠ m := by
  cases hid with
  | around steps hmem => exact (h.current.of_mem_walk hmem).ne
  | declared name hget =>
    rintro rfl
    exact h.declared name hget

theorem encloses (hm : s.Hosts m) (hid : s.Encloses id) : s.Avoids m id := by
  rcases hid with rfl | ⟨steps, hmem⟩
  · exact hm.global
  · exact h.current.of_mem_walk hmem

theorem confined (hst : s.Confined t) : t.Clear m where
  current := hst.current ▸ h.current.grown hst.toSteady.kept.grown
  declared name hget := h.ne_of_reaches (hst.declared name m hget) rfl

theorem bindings_eq (hst : s.Confined t) : (t.scopeAt m).bindings = (s.scopeAt m).bindings :=
  (hst.bindings m).resolve_right fun hm => h.ne_of_reaches hm rfl

theorem back (hkept : s.Kept t) (hd : s.DeclaresNothing t) : t.Clear m where
  current := hkept.current ▸ h.current.grown hkept.grown
  declared name := by
    rw [Scopes.here, hkept.current, hd s.current h.current.lt]
    exact h.declared name

end Clear

theorem clear_of_push {scope : Scope} (hm : s.Hosts m) (hall : t.all = s.all.push scope)
    (hcurrent : t.current = ⟨s.all.size⟩) (hredirects : scope.redirects = {})
    (hparent : ∀ p ∈ scope.parent, s.Avoids m p) : t.Clear m := by
  have hnew : t.here = scope := by
    rw [Scopes.here, hcurrent, scopeAt, hall]
    exact getD_push_size _ _
  refine ⟨?_, fun name hget => ?_⟩
  · rw [hcurrent]
    refine .of_parent (by simp [hall]) ?_ fun p hp => ?_
    · rintro rfl
      exact Nat.lt_irrefl _ hm.inside
    · rw [← hcurrent, ← Scopes.here, hnew] at hp
      exact (hparent p hp).grown (.of_push hall)
  · rw [hnew, hredirects] at hget
    cases hget

theorem Clear.enter (h : s.Clear m) (hm : s.Hosts m) (name : String) : (s.enter name).2.Clear m := by
  refine clear_of_push hm rfl rfl rfl fun p hp => ?_
  rw [← Option.mem_some.1 hp]
  exact h.current

theorem clear_enterFunction {captured : ScopeId} (hm : s.Hosts m) (h : s.Avoids m captured) (name : String)
    (params : List (String × Ty)) : (s.enterFunction name captured params).2.Clear m :=
  clear_of_push hm rfl rfl rfl h.parent

theorem declaresNothing_bind (s : Scopes) (id : ScopeId) (name : String) (b : Binding) :
    s.DeclaresNothing (s.bind id name b) := by
  intro other _
  change ((s.modifyScope id _).scopeAt other).redirects = _
  rw [scopeAt_modifyScope]
  split <;> rfl

theorem declaresNothing_mergeBindings (a : Arena) (bindings : List (String × Binding)) (s : Scopes) :
    s.DeclaresNothing (bindings.foldl (fun s entry => mergeBinding a s entry.1 entry.2) s) := by
  induction bindings generalizing s with
  | nil => exact fun _ _ => rfl
  | cons entry rest ih =>
    intro id hid
    have hsize := (s.steady_mergeBinding a entry.1 entry.2).size
    exact (ih _ id (hsize.symm ▸ hid)).trans (s.declaresNothing_bind _ _ _ id hid)

section ExitBranch

variable {parent : ScopeId} (hparent : s.here.parent = some parent) (a : Arena)
include hparent

theorem confined_exitBranch : { s with current := parent }.Confined (s.exitBranch a) := by
  unfold exitBranch
  rw [hparent]
  exact (confined_mergeBindings a _ _).touch

theorem grown_exitBranch : s.Grown (s.exitBranch a) where
  size := (confined_exitBranch hparent a).toSteady.kept.size
  parents := (confined_exitBranch hparent a).toSteady.kept.parents

theorem declaresNothing_exitBranch : s.DeclaresNothing (s.exitBranch a) := by
  unfold exitBranch
  rw [hparent]
  exact declaresNothing_mergeBindings a _ { s with current := parent }

end ExitBranch

end Scopes

def FunctionInfo.code (f : FunctionInfo) : ScopeId × FunctionBody :=
  (f.captured, f.body)

namespace World

variable {w v x : World} {m : ScopeId}

/-- A function whose body runs away from a scope, and declares nothing global. -/
structure Foreign (w : World) (m : ScopeId) (id : FunctionId) : Prop where
  captured : w.scopes.Avoids m (w.arena.functionAt id).captured
  body : ¬(w.arena.functionAt id).body.DeclaresGlobal

/-- A function that is not foreign. -/
def Own (w : World) (m : ScopeId) (id : FunctionId) : Prop :=
  id.val < w.arena.functions.size ∧ ¬w.Foreign m id

theorem Foreign.grown {id : FunctionId} (h : w.Foreign m id) (hg : w.scopes.Grown v.scopes)
    (hcode : (v.arena.functionAt id).code = (w.arena.functionAt id).code) : v.Foreign m id := by
  obtain ⟨hcaptured, hbody⟩ := Prod.mk.inj hcode
  exact ⟨hcaptured ▸ h.captured.grown hg, hbody ▸ h.body⟩

theorem foreign_of_not_lt {id : FunctionId} (hm : w.scopes.Hosts m)
    (h : ¬id.val < w.arena.functions.size) : w.Foreign m id := by
  have hdefault : w.arena.functionAt id = default := getD_of_not_lt h
  exact ⟨hdefault ▸ hm.global, hdefault ▸ fun h => h⟩

/-- The functions of the second world that are not foreign are in the first one too, with the same code. -/
def BringsForeign (w v : World) (m : ScopeId) : Prop :=
  ∀ id, v.Own m id → w.Own m id ∧ (v.arena.functionAt id).code = (w.arena.functionAt id).code

theorem BringsForeign.refl (w : World) (m : ScopeId) : w.BringsForeign w m :=
  fun _ hid => ⟨hid, rfl⟩

theorem BringsForeign.trans (h : w.BringsForeign v m) (k : v.BringsForeign x m) : w.BringsForeign x m := by
  intro id hid
  obtain ⟨hv, hsame⟩ := k id hid
  exact ⟨(h id hv).1, hsame.trans (h id hv).2⟩

theorem bringsForeign_of_code (hg : w.scopes.Grown v.scopes)
    (hold : ∀ id : FunctionId, id.val < w.arena.functions.size →
      (v.arena.functionAt id).code = (w.arena.functionAt id).code)
    (hnew : ∀ id : FunctionId, id.val < v.arena.functions.size → ¬id.val < w.arena.functions.size →
      v.Foreign m id) : w.BringsForeign v m := by
  intro id ⟨hin, hown⟩
  by_cases hid : id.val < w.arena.functions.size
  · exact ⟨⟨hid, fun hforeign => hown (hforeign.grown hg (hold id hid))⟩, hold id hid⟩
  · exact absurd (hnew id hin hid) hown

theorem bringsForeign_of_functions (hg : w.scopes.Grown v.scopes)
    (h : v.arena.functions = w.arena.functions) : w.BringsForeign v m := by
  refine bringsForeign_of_code hg (fun id _ => ?_) fun id hin hid => absurd (h ▸ hin) hid
  rw [Arena.functionAt, Arena.functionAt, h]

theorem bringsForeign_remember (a : Arena) (scopes : Scopes) (m : ScopeId) (id : FunctionId)
    (key : CallKey) (result : Ty) :
    BringsForeign ⟨a, scopes⟩ ⟨a.modifyFunction id (·.remember key result), scopes⟩ m := by
  have hsize : (a.modifyFunction id (·.remember key result)).functions.size = a.functions.size :=
    Array.size_modify
  refine bringsForeign_of_code (.of_all rfl) (fun other _ => ?_) fun other hin hid =>
    absurd (hsize ▸ hin) hid
  exact getD_modify_rec (p := fun f : FunctionInfo => f.code = (a.functionAt other).code) rfl fun _ => rfl

/-- All ways outwards end, and no function declares anything global. -/
structure Plain (w : World) : Prop where
  rooted : ∀ id, w.scopes.Rooted id
  bodies : ∀ id, ¬(w.arena.functionAt id).body.DeclaresGlobal

end World

def ModuleCache.Plain (modules : ModuleCache) : Prop :=
  ∀ table, modules.Offers table → table.world.Plain

namespace Adoption

variable {w : World} {P : Entry → Prop} {a b d : Adoption} {m : ScopeId}

structure Aside (a : Adoption) (m : ScopeId) : Prop where
  valid : a.Valid
  hosts : a.scopes.Hosts m
  copies : ∀ {id copy : ScopeId}, a.Pairs (.scope id) (.scope copy) → a.scopes.Avoids m copy

theorem aside_start {arena : Arena} {scopes : Scopes} (hm : scopes.Hosts m) :
    Aside { arena, scopes } m where
  valid := valid_start arena scopes
  hosts := hm
  copies hp := by
    cases (eq_global_of_pairs_start hp).2
    exact hm.global

/-- An adoption goes on aside of a scope. It brings foreign functions, and from a place that is clear of
the scope it binds nothing there. -/
structure GoesAside (a b : Adoption) (m : ScopeId) : Prop where
  aside : b.Aside m
  kept : a.scopes.Kept b.scopes
  declares : a.scopes.DeclaresHere b.scopes
  brings : a.target.BringsForeign b.target m
  clear : a.scopes.Clear m →
    b.scopes.Clear m ∧ (b.scopes.scopeAt m).bindings = (a.scopes.scopeAt m).bindings

theorem Aside.goesAside (h : a.Aside m) : a.GoesAside a m :=
  ⟨h, .refl _, fun _ _ _ => rfl, .refl _ m, fun hclear => ⟨hclear, rfl⟩⟩

theorem GoesAside.trans (h : a.GoesAside b m) (k : b.GoesAside d m) : a.GoesAside d m where
  aside := k.aside
  kept := h.kept.trans k.kept
  declares := h.declares.trans h.kept k.declares
  brings := h.brings.trans k.brings
  clear hclear := by
    obtain ⟨hb, hbindings⟩ := h.clear hclear
    exact ⟨(k.clear hb).1, (k.clear hb).2.trans hbindings⟩

namespace Extends

variable (h : Extends w P a b) (ha : a.Aside m) (hw : w.Plain)
include h ha hw

theorem avoids_copy {id copy : ScopeId} (hp : b.Pairs (.scope id) (.scope copy)) :
    b.scopes.Avoids m copy := by
  have hrooted := hw.rooted id
  induction hrooted generalizing copy with
  | @root id hroot =>
    by_cases hold : a.Pairs (.scope id) (.scope copy)
    · exact (ha.copies hold).grown h.kept.grown
    obtain ⟨hnew, hin⟩ := h.fresh hp hold
    refine .of_parent hin (fun heq => hnew (heq ▸ ha.hosts.inside)) fun p hparent => ?_
    obtain ⟨outer, houter, -⟩ := exists_of_mem_optionRel (h.copies hp hold).parent hparent
    rw [hroot] at houter
    cases houter
  | @child id parent hchild _ ih =>
    by_cases hold : a.Pairs (.scope id) (.scope copy)
    · exact (ha.copies hold).grown h.kept.grown
    obtain ⟨hnew, hin⟩ := h.fresh hp hold
    refine .of_parent hin (fun heq => hnew (heq ▸ ha.hosts.inside)) fun p hparent => ?_
    obtain ⟨outer, houter, hpair⟩ := exists_of_mem_optionRel (h.copies hp hold).parent hparent
    rw [hchild] at houter
    cases houter
    exact ih hpair

theorem bringsForeign : a.target.BringsForeign b.target m := by
  refine World.bringsForeign_of_code h.kept.grown (fun id hid => ?_) fun id hin hid => ?_
  · have hold : b.arena.functionAt id = a.arena.functionAt id := (h.keeps (f := .function id) hid).2
    exact congrArg FunctionInfo.code hold
  obtain ⟨e, he⟩ := h.onto (f := .function id) hin hid
  cases e with
  | function original =>
    have hnew : ¬a.Pairs (.function original) (.function id) := fun hp => hid (ha.valid hp nofun)
    have hcopied : (w.arena.functionAt original).Copied b.Pairs (b.arena.functionAt id) := h.copies he hnew
    have hbody : (b.arena.functionAt id).body = (w.arena.functionAt original).body := by
      rw [← hcopied.same]
    refine ⟨h.avoids_copy ha hw hcopied.captured, ?_⟩
    change ¬(b.arena.functionAt id).body.DeclaresGlobal
    rw [hbody]
    exact hw.bodies original
  | _ => exact he.elim

theorem goesAside : a.GoesAside b m where
  aside := ⟨h.valid ha.valid, ha.hosts.grown h.kept.grown, h.avoids_copy ha hw⟩
  kept := h.kept
  declares id hid _ := congrArg Scope.redirects (h.keeps (f := .scope id) hid).2
  brings := h.bringsForeign ha hw
  clear hclear := by
    have hsame (id : ScopeId) (hid : id.val < a.scopes.all.size) :
        b.scopes.scopeAt id = a.scopes.scopeAt id := (h.keeps (f := .scope id) hid).2
    refine ⟨hclear.back h.kept fun id hid => by rw [hsame id hid], ?_⟩
    rw [hsame m ha.hosts.inside]

end Extends

theorem Aside.set (ha : a.Aside m) (name : String) (t : Ty) (confidence : Float) :
    a.GoesAside { a with scopes := a.scopes.set name t confidence } m where
  aside :=
    { valid := fun e f hp hne => by
        have hold := ha.valid (e := e) (f := f) (by cases e <;> cases f <;> exact hp) hne
        cases f with
        | scope id => exact Nat.lt_of_lt_of_eq hold (a.scopes.steady_set name t confidence).size.symm
        | _ => exact hold
      hosts := ha.hosts.grown (a.scopes.steady_set name t confidence).kept.grown
      copies := fun hp => (ha.copies hp).grown (a.scopes.steady_set name t confidence).kept.grown }
  kept := (a.scopes.steady_set name t confidence).kept
  declares := (a.scopes.declaresNothing_bind _ name _).here
  brings := World.bringsForeign_of_functions (a.scopes.steady_set name t confidence).kept.grown rfl
  clear hclear :=
    ⟨hclear.confined (a.scopes.confined_set name t confidence),
      hclear.bindings_eq (a.scopes.confined_set name t confidence)⟩

theorem goesAside_of_adopts {table : SymbolTable} {α : Type} {x : AdoptM α} (h : Adopts table x)
    (htable : table.world.Plain) (ha : a.Aside m) :
    Gives (table.world.Grounded table.Exposes) x a fun _ b => a.GoesAside b m := by
  induction h generalizing a with
  | pure r => exact ha.goesAside
  | adopt hm =>
    have hmentions (e : Entry) (he : Ty.Mentions _ e) : table.Exposes e :=
      table.world.spans_of_root ⟨_, hm, he⟩
    exact Gives.imp (copying_adopt (table.world.closed_spans _) hmentions ha.valid) fun t b hb =>
      hb.1.goesAside ha htable
  | set name t confidence => exact ha.set name t confidence
  | bind hx hf ihx ihf =>
    refine Gives.bind (ihx ha) fun r b hb => ?_
    exact Gives.imp (ihf r hb.aside) fun q d hd => hb.trans hd

end Adoption

end Credence

import Credence.Check.Session
import Credence.Proofs.Keeping
import Credence.Proofs.Resolution

namespace Credence

/-- A generation has moved, or it has not and the states are related. -/
def Advances {σ : Type} (generation : σ → Nat) (R : σ → σ → Prop) (s t : σ) : Prop :=
  generation s < generation t ∨ generation t = generation s ∧ R s t

namespace Advances

variable {σ : Type} {generation : σ → Nat} {R : σ → σ → Prop} {s t u : σ}

theorem le (h : Advances generation R s t) : generation s ≤ generation t := by
  rcases h with hlt | ⟨heq, -⟩
  · exact Nat.le_of_lt hlt
  · exact Nat.le_of_eq heq.symm

theorem related (h : Advances generation R s t) (heq : generation t = generation s) : R s t := by
  rcases h with hlt | ⟨-, hrelated⟩
  · exact absurd heq (Nat.ne_of_gt hlt)
  · exact hrelated

theorem trans (hR : R s t → R t u → R s u) (h : Advances generation R s t) (k : Advances generation R t u) :
    Advances generation R s u := by
  rcases h with hlt | ⟨heq, hst⟩
  · exact .inl (Nat.lt_of_lt_of_le hlt k.le)
  · rcases k with klt | ⟨keq, htu⟩
    · exact .inl (heq ▸ klt)
    · exact .inr ⟨keq.trans heq, hR hst htu⟩

end Advances

namespace Scopes

variable {s t u : Scopes} {names : List String}

/-- Lookups see the same, except that names of the current scope may have been declared. -/
structure Rests (names : List String) (s t : Scopes) : Prop extends Steady s t where
  bindings : ∀ id, (t.scopeAt id).bindings = (s.scopeAt id).bindings
  redirects : ∀ name ∉ names, t.here.redirects.get? name = s.here.redirects.get? name

theorem Rests.refl (names : List String) (s : Scopes) : s.Rests names s :=
  { Steady.refl s with
    bindings := fun _ => rfl
    redirects := fun _ _ => rfl }

theorem Rests.trans (h : s.Rests names t) (k : t.Rests names u) : s.Rests names u :=
  { h.toSteady.trans k.toSteady with
    bindings := fun id => (k.bindings id).trans (h.bindings id)
    redirects := fun name hname => (k.redirects name hname).trans (h.redirects name hname) }

theorem rests_redirect {name : String} (hname : name ∈ names) (s : Scopes) (id : ScopeId) :
    s.Rests names (s.redirect name id) :=
  { s.steady_redirect name id with
    bindings := fun other => by
      rw [redirect, scopeAt_modifyScope]
      split <;> rfl
    redirects := fun other hother => by
      have hne : other ≠ name := fun heq => hother (heq ▸ hname)
      change ((s.redirect name id).scopeAt s.current).redirects.get? other = _
      rw [redirect, scopeAt_modifyScope]
      split
      · exact (Table.get?_insert _ _ _ _).trans (if_neg (by simpa using hne))
      · rfl }

abbrev Advance (names : List String) : Scopes → Scopes → Prop :=
  Advances generation (Rests names)

theorem Advance.refl (names : List String) (s : Scopes) : s.Advance names s :=
  .inr ⟨rfl, .refl names s⟩

theorem advance_redirect {name : String} (hname : name ∈ names) (s : Scopes) (id : ScopeId) :
    s.Advance names (s.redirect name id) :=
  .inr ⟨rfl, rests_redirect hname s id⟩

theorem advance_declareNonlocal {name : String} (hname : name ∈ names) (s : Scopes) :
    s.Advance names (s.declareNonlocal name) := by
  rw [declareNonlocal_eq]
  cases s.enclosing? s.current name with
  | none => exact .refl names s
  | some id => exact advance_redirect hname s id

theorem Edit.advance (e : Edit) (names : List String) (s : Scopes) : s.Advance names (e.apply s) := by
  cases e with
  | add a name value confidence => exact .inl (Nat.lt_succ_self _)
  | addAscribed a name ascribed value confidence =>
    change s.Advance names (s.addAscribed a name ascribed value confidence).2
    unfold Scopes.addAscribed
    split
    · exact .inl (Nat.lt_succ_self _)
    · split
      · exact .inl (Nat.lt_succ_self _)
      · exact .inl (Nat.lt_succ_self _)
  | set name type confidence => exact .inl (Nat.lt_succ_self _)
  | narrow name type => exact .inl (Nat.lt_succ_self _)
  | update name type =>
    change s.Advance names (s.update name type)
    unfold Scopes.update
    split
    · exact .inl (Nat.lt_succ_self _)
    · exact .inl (Nat.lt_succ_self _)
  | remove name =>
    change s.Advance names (s.remove name).2
    unfold Scopes.remove
    split
    · exact .inl (Nat.lt_succ_self _)
    · exact .refl names s

theorem advance_exit (names : List String) (s : Scopes) : s.Advance names s.exit := by
  unfold exit
  split
  · exact .inl (Nat.lt_succ_self _)
  · exact .refl names s

theorem advance_exitFunction (names : List String) (s : Scopes) : s.Advance names s.exitFunction := by
  unfold exitFunction
  split
  · exact .inl (Nat.lt_succ_self _)
  · exact .refl names s

theorem advance_exitBranch (names : List String) (s : Scopes) (a : Arena) : s.Advance names (s.exitBranch a) := by
  unfold exitBranch
  split
  · exact .refl names s
  · rename_i parent _
    refine .inl (Nat.lt_succ_of_le ?_)
    exact List.foldlRecOn (motive := fun t : Scopes => s.generation ≤ t.generation) _ _
      (Nat.le_refl s.generation) fun t ht _ _ => Nat.le_succ_of_le ht

namespace Rests

variable (h : s.Rests names t)
include h

theorem lookupFrom_eq (start : ScopeId) (name : String) : t.lookupFrom start name = s.lookupFrom start name := by
  unfold lookupFrom chain
  simp only [h.size, h.walk, h.bindings]

theorem lookup_eq (name : String) :
    t.lookup name = (t.declared? name).or (s.lookupFrom s.current name) := by
  rw [lookup, ← declared?, h.current, h.lookupFrom_eq]
  cases t.declared? name <;> rfl

theorem declared?_eq {name : String} (hname : name ∉ names) : t.declared? name = s.declared? name := by
  unfold declared?
  simp only [h.redirects name hname, h.bindings]

end Rests

end Scopes

namespace Arena

variable {a b c : Arena}

/-- Lookups see the same. -/
structure Rests (a b : Arena) : Prop where
  follows : a.Follows b
  objects : b.objects = a.objects

theorem Rests.refl (a : Arena) : a.Rests a :=
  ⟨.refl a, rfl⟩

theorem Rests.trans (h : a.Rests b) (k : b.Rests c) : a.Rests c :=
  ⟨h.follows.trans k.follows, k.objects.trans h.objects⟩

theorem Rests.objectLookup_eq (h : a.Rests b) (id : ObjectId) (name : String) :
    (b.objectLookup id name).1 = (a.objectLookup id name).1 := by
  apply h.follows.objectLookup_eq
  rw [objectAt, h.objects, objectAt]

abbrev Advance : Arena → Arena → Prop :=
  Advances generation Rests

theorem Advance.refl (a : Arena) : a.Advance a :=
  .inr ⟨rfl, .refl a⟩

theorem Query.advance (query : Query) (a : Arena) : a.Advance (query.run a) := by
  have hmerging : Merging (fun b => b.generation = a.generation ∧ b.objects = a.objects) fun _ _ _ => True :=
    merging_of_keep fun _ _ _ h => h
  cases query with
  | inherited id =>
    obtain ⟨-, ⟨hgeneration, hobjects⟩, -⟩ := hmerging.inherited ⟨rfl, rfl⟩ id
    exact .inr ⟨hgeneration, ((Follows.refl a).inherited id).2, hobjects⟩
  | classMember id name =>
    obtain ⟨hgeneration, hobjects⟩ := hmerging.classLookup ⟨rfl, rfl⟩ id name
    exact .inr ⟨hgeneration, (Follows.refl a).after_classLookup id name, hobjects⟩
  | objectMember id name =>
    obtain ⟨hgeneration, hobjects⟩ := hmerging.objectLookup ⟨rfl, rfl⟩ id name
    exact .inr ⟨hgeneration, (Follows.refl a).after_objectLookup id name, hobjects⟩

end Arena

/-- What is done to a world. -/
inductive Operation where
  | edit (e : Scopes.Edit)
  | enter (name : String)
  | exit
  | exitBranch
  | enterFunction (name : String) (captured : ScopeId) (params : List (String × Ty))
  | exitFunction
  | goTo (id : ScopeId)
  | setModule (id : ScopeId)
  | declareGlobal (name : String)
  | declareNonlocal (name : String)
  | putScope (scope : Scope)
  | changeScope (id : ScopeId) (f : Scope → Scope)
  | addClass (info : ClassInfo)
  | addObject (cls : ClassId)
  | addFunction (info : FunctionInfo)
  | addModule (info : ModuleInfo)
  | modifyClass (id : ClassId) (f : ClassInfo → ClassInfo)
  | modifyObject (id : ObjectId) (f : ObjectInfo → ObjectInfo)
  | modifyFunction (id : FunctionId) (f : FunctionInfo → FunctionInfo)
  | modifyModule (id : ModuleId) (f : ModuleInfo → ModuleInfo)
  | ask (query : Arena.Query)

namespace Operation

def run (w : World) : Operation → World
  | edit e => { w with scopes := e.apply w.scopes }
  | enter name => { w with scopes := (w.scopes.enter name).2 }
  | exit => { w with scopes := w.scopes.exit }
  | exitBranch => { w with scopes := w.scopes.exitBranch w.arena }
  | enterFunction name captured params =>
    { w with scopes := (w.scopes.enterFunction name captured params).2 }
  | exitFunction => { w with scopes := w.scopes.exitFunction }
  | goTo id => { w with scopes := w.scopes.goTo id }
  | setModule id => { w with scopes := w.scopes.setModule id }
  | declareGlobal name => { w with scopes := w.scopes.declareGlobal name }
  | declareNonlocal name => { w with scopes := w.scopes.declareNonlocal name }
  | putScope scope => { w with scopes := (w.scopes.touch.alloc scope).2 }
  | changeScope id f => { w with scopes := (w.scopes.modifyScope id f).touch }
  | addClass info => { w with arena := (w.arena.addClass info).2 }
  | addObject cls => { w with arena := (w.arena.addObject cls).2 }
  | addFunction info => { w with arena := (w.arena.addFunction info).2 }
  | addModule info => { w with arena := (w.arena.addModule info).2 }
  | modifyClass id f => { w with arena := w.arena.modifyClass id f }
  | modifyObject id f => { w with arena := w.arena.modifyObject id f }
  | modifyFunction id f => { w with arena := w.arena.modifyFunction id f }
  | modifyModule id f => { w with arena := w.arena.modifyModule id f }
  | ask query => { w with arena := query.run w.arena }

def declares : Operation → List String
  | declareGlobal name | declareNonlocal name => [name]
  | _ => []

theorem advance_scopes {names : List String} (op : Operation) (hnames : op.declares ⊆ names) (w : World) :
    w.scopes.Advance names (op.run w).scopes := by
  cases op with
  | edit e => exact e.advance names w.scopes
  | enter | enterFunction | goTo | putScope | changeScope => exact .inl (Nat.lt_succ_self _)
  | exit => exact w.scopes.advance_exit names
  | exitBranch => exact w.scopes.advance_exitBranch names w.arena
  | exitFunction => exact w.scopes.advance_exitFunction names
  | setModule id => exact .inr ⟨rfl, { Scopes.Rests.refl names w.scopes with }⟩
  | declareGlobal name => exact Scopes.advance_redirect (hnames List.mem_cons_self) w.scopes _
  | declareNonlocal name => exact Scopes.advance_declareNonlocal (hnames List.mem_cons_self) w.scopes
  | _ => exact .refl names w.scopes

theorem advance_arena (op : Operation) (w : World) : w.arena.Advance (op.run w).arena := by
  cases op with
  | addClass | addObject | addFunction | addModule | modifyClass | modifyObject | modifyFunction | modifyModule =>
    exact .inl (Nat.lt_succ_self _)
  | ask query => exact query.advance w.arena
  | _ => exact .refl w.arena

def runAll (w : World) (ops : List Operation) : World :=
  ops.foldl run w

theorem advance_runAll {names : List String} (ops : List Operation) (hnames : ops.flatMap declares ⊆ names)
    (w : World) :
    w.scopes.Advance names (runAll w ops).scopes ∧ w.arena.Advance (runAll w ops).arena := by
  -- By induction on the operations.
  induction ops generalizing w with
  | nil => exact ⟨.refl names w.scopes, .refl w.arena⟩
  | cons op ops ih =>
    rw [List.flatMap_cons, List.append_subset] at hnames
    obtain ⟨hscopes, harena⟩ := ih hnames.2 (op.run w)
    exact ⟨(op.advance_scopes hnames.1 w).trans .trans hscopes, (op.advance_arena w).trans .trans harena⟩

end Operation

/-- What the types of expressions are remembered with. -/
def World.stamp (w : World) : Stamp :=
  ⟨w.scopes.current, w.scopes.generation, w.arena.generation⟩

theorem outcome_stamp (c : Context) (s : Session) :
    CheckM.stamp.outcome c s = (.ok (World.stamp ⟨s.arena, s.scopes⟩), s) :=
  rfl

open Operation in
/-- Two states with the same stamp. Members of classes and objects are the same, and so are names that are
looked for outwards from a scope. The current scope gives the same for each name that has not been declared
between them; for another it does if the declaration leads to what was found before, or to nothing while the
scopes outwards give that. -/
theorem lookups_agree_of_stamp (w : World) (ops : List Operation) (hstamp : (runAll w ops).stamp = w.stamp) :
    (∀ id name, ((runAll w ops).arena.classLookup id name).1 = (w.arena.classLookup id name).1) ∧
      (∀ id name, ((runAll w ops).arena.objectLookup id name).1 = (w.arena.objectLookup id name).1) ∧
      (∀ start name, (runAll w ops).scopes.lookupFrom start name = w.scopes.lookupFrom start name) ∧
      (∀ name ∉ ops.flatMap declares, (runAll w ops).scopes.lookup name = w.scopes.lookup name) ∧
      ∀ name, (runAll w ops).scopes.lookup name = w.scopes.lookup name ↔
        ((runAll w ops).scopes.declared? name).or (w.scopes.lookupFrom w.scopes.current name) =
          w.scopes.lookup name := by
  obtain ⟨hscopes, harena⟩ := advance_runAll ops (List.Subset.refl _) w
  have hscopes := hscopes.related (congrArg Stamp.scopeGeneration hstamp)
  have harena := harena.related (congrArg Stamp.arenaGeneration hstamp)
  refine ⟨harena.follows.classLookup_eq, harena.objectLookup_eq, hscopes.lookupFrom_eq, ?_, ?_⟩
  · intro name hname
    rw [hscopes.lookup_eq, hscopes.declared?_eq hname, ← (Scopes.Rests.refl [] w.scopes).lookup_eq]
  · intro name
    rw [hscopes.lookup_eq]

/-- The body of a function that has bound a name of the module for itself. -/
def shadowing : World where
  scopes := ((({} : Scopes).set "x" .int 1.0).enter "f").2.set "x" .str 1.0

open Operation in
theorem lookups_agree_of_stamp_shadowing :
    (runAll shadowing [.setModule ⟨1⟩, .declareGlobal "y", .exitFunction]).stamp = shadowing.stamp ∧
      (runAll shadowing [.setModule ⟨1⟩, .declareGlobal "y", .exitFunction]).scopes.lookup "x" =
        shadowing.scopes.lookup "x" := by
  have hstamp : (runAll shadowing [.setModule ⟨1⟩, .declareGlobal "y", .exitFunction]).stamp =
      shadowing.stamp := rfl
  exact ⟨hstamp, (lookups_agree_of_stamp shadowing _ hstamp).2.2.2.1 "x" (by decide)⟩

theorem Memo.get_store (m : Memo) (file : String) (node : Nat) (t : Ty) (kept now : Stamp) :
    ((m.store file node t kept).get file node now).1 = if kept = now then some t else none := by
  unfold get store
  rw [getElem?_insert, if_pos rfl]
  simp only
  split <;> rfl

/-- A declaration of the name leads to the module. What was remembered is still given, as the stamp is the
same. -/
theorem remembered_past_declaration :
    (Operation.run shadowing (.declareGlobal "x")).stamp = shadowing.stamp ∧
      shadowing.scopes.lookup "x" = some { type := .str, confidence := 1.0 } ∧
      (Operation.run shadowing (.declareGlobal "x")).scopes.lookup "x" =
        some { type := .int, confidence := 1.0 } ∧
      ((({} : Memo).store "main.py" 1 .str shadowing.stamp).get "main.py" 1
        (Operation.run shadowing (.declareGlobal "x")).stamp).1 = some .str := by
  refine ⟨rfl, rfl, rfl, ?_⟩
  rw [Memo.get_store]
  exact if_pos rfl

end Credence

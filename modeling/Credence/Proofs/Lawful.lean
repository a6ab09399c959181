import Credence.Proofs.Discipline
import Credence.Proofs.Steady

namespace Credence

open CheckM Check

/-- A change that keeps the functions, the place of the check and all that is open in it. Types are
remembered for the current scope only. -/
structure Session.Minor (s t : Session) : Prop where
  functions : t.arena.functions = s.arena.functions
  scopes : s.scopes.Confined t.scopes
  cursor : t.hub.cursor = s.hub.cursor
  suppressions : t.hub.suppressions = s.hub.suppressions
  guard : t.guard = s.guard
  frames : t.frames.map (·.function) = s.frames.map (·.function)
  classScopes : t.classScopes = s.classScopes
  memo : ∀ (key : String × Nat) (kept : Ty × Stamp), t.memo.entries[key]? = some kept →
    s.memo.entries[key]? = some kept ∨ kept.2.scope = s.scopes.current

theorem Session.Minor.refl (s : Session) : s.Minor s :=
  ⟨rfl, .refl s.scopes, rfl, rfl, rfl, rfl, rfl, fun _ _ h => .inl h⟩

theorem Session.minor_recall (s : Session) (file : String) (node : Nat) (stamp : Stamp) :
    s.Minor { s with memo := (s.memo.get file node stamp).2 } :=
  { Minor.refl s with memo := fun _ _ hkept => .inl (Memo.entries_get ▸ hkept) }

theorem Session.minor_store (s : Session) (file : String) (node : Nat) (t : Ty) {stamp : Stamp}
    (hstamp : stamp.scope = s.scopes.current) :
    s.Minor { s with memo := s.memo.store file node t stamp } :=
  { Minor.refl s with
    memo := fun key kept hkept => by
      rcases Memo.getElem?_store hkept with rfl | hold
      · exact .inr hstamp
      · exact .inl hold }

/-- A table from which an import takes values: that of a module by its name, or of a module below
another one that has no binding of its name. -/
inductive ModuleCache.Offers (modules : ModuleCache) (table : SymbolTable) : Prop
  | module (name : String) : modules.get? (modulePath name) = some table → Offers modules table
  | below (module name : String) :
    ((modules.get? (modulePath module)).bind fun t => t.bindings.get? name) = none →
    modules.get? (modulePath module ++ "/" ++ name) = some table → Offers modules table

theorem ModuleCache.Offers.mem {modules : ModuleCache} {table : SymbolTable}
    (h : modules.Offers table) : ∃ path, (path, table) ∈ modules.entries := by
  cases h with
  | module name h => exact ⟨_, mem_of_lookup h⟩
  | below module name _ h => exact ⟨_, mem_of_lookup h⟩

/-- Steps that copy values of a module and bind them. -/
inductive Adopts (table : SymbolTable) : {α : Type} → AdoptM α → Prop
  | pure {α : Type} (a : α) : Adopts table (Pure.pure a)
  | adopt {entry : String × Binding} : entry ∈ table.bindings.entries →
    Adopts table (Adoption.adopt (Adoption.copier table.world) entry.2.type)
  | set (name : String) (t : Ty) (confidence : Float) :
    Adopts table (modify fun s => { s with scopes := s.scopes.set name t confidence })
  | bind {α β : Type} {x : AdoptM α} {f : α → AdoptM β} :
    Adopts table x → (∀ a, Adopts table (f a)) → Adopts table (x >>= f)

namespace Adopts

variable {table : SymbolTable} {α β : Type}

theorem mapM {xs : List α} {f : α → AdoptM β} (h : ∀ a ∈ xs, Adopts table (f a)) :
    Adopts table (xs.mapM f) := by
  induction xs with
  | nil => exact .pure _
  | cons a rest ih =>
    rw [List.mapM_cons]
    exact (h a (by simp)).bind fun b => (ih fun x hx => h x (by simp [hx])).bind fun bs => .pure _

theorem tableMapM {t : Table α} {f : α → AdoptM β} (h : ∀ entry ∈ t.entries, Adopts table (f entry.2)) :
    Adopts table (t.mapM f) := by
  refine .bind (.mapM fun entry hm => ?_) fun entries => .pure _
  exact (h entry hm).bind fun value => .pure _

theorem forIn {xs : List α} {b : β} {f : α → β → AdoptM (ForInStep β)}
    (h : ∀ a ∈ xs, ∀ b, Adopts table (f a b)) : Adopts table (forIn xs b f) := by
  induction xs generalizing b with
  | nil => exact .pure b
  | cons a rest ih =>
    rw [List.forIn_cons]
    refine (h a (by simp) b).bind fun step => ?_
    cases step with
    | done b => exact .pure b
    | yield b => exact ih fun x hx => h x (by simp [hx])

end Adopts

abbrev Sites :=
  FunctionBody → Nat → String → Prop

def FunctionBody.names : FunctionBody → List String
  | .statements definition => namesUsed definition.body
  | .lambda value => value.namesOnto []

/-- A function that a definition at one of the sites makes. -/
structure Sites.Defines (N : Sites) (s : Session) (f : FunctionInfo) : Prop where
  file : f.file = s.hub.cursor.file
  calls : f.calls = []
  reads : f.reads = f.body.names
  captured : s.scopes.Encloses f.captured
  site : N f.body f.line f.name

/-- A discipline that holds for everything of which a check is made, except for calls, global declarations
and the lines of statements. -/
structure Discipline.Basic (D : Discipline) (c : Context) (N : Sites) : Prop where
  fault : ∀ f, D.stop (.fault f)
  encloses : ∀ {s t : Session} {id : ScopeId}, D.le s t → s.scopes.Encloses id → t.scopes.Encloses id
  minor : ∀ {s t : Session}, D.inv s → s.Minor t → D.Moves s t
  define : ∀ {s : Session} {f : FunctionInfo}, D.inv s → N.Defines s f →
    D.Moves s { s with arena := (s.arena.addFunction f).2 }
  inScope : ∀ {α : Type} {name : String} {x y : CheckM α}, D.Holds c x y →
    D.Holds c (CheckM.inScope name x) (CheckM.inScope name y)
  inClassBody : ∀ {α : Type} {name : String} {id : ClassId} {x y : ScopeId → CheckM α},
    (∀ scope, D.Holds c (x scope) (y scope)) →
    D.Holds c (CheckM.inClassBody name id x) (CheckM.inClassBody name id y)
  inBranch : ∀ {name : String} {x y : CheckM Unit}, D.Holds c x y →
    D.Holds c (CheckM.inBranch name x) (CheckM.inBranch name y)
  suppressing : ∀ {kinds : List DiagnosticKind} {x y : CheckM Unit}, D.Holds c x y →
    D.Holds c (CheckM.suppressing kinds x) (CheckM.suppressing kinds y)
  adopting : ∀ {α : Type} {table : SymbolTable} {x : AdoptM α},
    c.modules.Offers table → Adopts table x →
    D.Holds c (Check.adopting x) (Check.adopting x)

/-- A discipline that holds for everything of which a check is made, calls apart. -/
structure Discipline.Lawful (D : Discipline) (c : Context) (N : Sites) : Prop extends D.Basic c N where
  declare : ∀ {s : Session} (name : String), D.inv s →
    D.Moves s { s with scopes := s.scopes.declareGlobal name }
  goToLine : ∀ {s : Session} (line : Nat), D.inv s → D.Moves s { s with hub := s.hub.setLine line }

namespace Hub

theorem cursor_reportAt (h : Hub) (place : Cursor) (finding : Finding) :
    (h.reportAt place finding).2.cursor = h.cursor := by
  unfold reportAt
  split
  · rfl
  · simp only
    split <;> rfl

theorem suppressions_reportAt (h : Hub) (place : Cursor) (finding : Finding) :
    (h.reportAt place finding).2.suppressions = h.suppressions := by
  unfold reportAt
  split
  · rfl
  · simp only
    split <;> rfl

theorem cursor_reportAll (h : Hub) (findings : List Finding) :
    (h.reportAll findings).cursor = h.cursor := by
  induction findings generalizing h with
  | nil => rfl
  | cons finding rest ih => exact (ih _).trans (h.cursor_reportAt h.cursor finding)

theorem suppressions_reportAll (h : Hub) (findings : List Finding) :
    (h.reportAll findings).suppressions = h.suppressions := by
  induction findings generalizing h with
  | nil => rfl
  | cons finding rest ih => exact (ih _).trans (h.suppressions_reportAt h.cursor finding)

end Hub

namespace Discipline.Basic

variable {α : Type} {D : Discipline} {c : Context} {N : Sites} (law : D.Basic c N)
include law

theorem bind_enclosed {β : Type} {x y : CheckM α} {f g : α → CheckM β} {s : Session} {id : ScopeId}
    (hx : D.Holds c x y) (hs : D.inv s) (hid : s.scopes.Encloses id)
    (hf : ∀ a t, D.inv t → t.scopes.Encloses id → D.Runs c (f a) (g a) t) :
    D.Runs c (x >>= f) (y >>= g) s := by
  refine (hx s hs).bind fun a t ht hinv => hf a t hinv ?_
  have hle := (hx s hs).moves.2
  rw [ht] at hle
  exact law.encloses hle hid

theorem fail (cause : Cause) (position : Position) :
    D.Holds c (CheckM.fail cause position : CheckM α) (CheckM.fail cause position) :=
  .throw (law.fault _)

omit law in
theorem getArena : D.Holds c CheckM.getArena CheckM.getArena :=
  Holds.get.bind fun s => .pure s.arena

omit law in
theorem getScopes : D.Holds c CheckM.getScopes CheckM.getScopes :=
  Holds.get.bind fun s => .pure s.scopes

theorem minor_arena {s : Session} {a : Arena} (hs : D.inv s)
    (h : a.functions = s.arena.functions) : D.Moves s { s with arena := a } :=
  law.minor hs { Session.Minor.refl s with functions := h }

theorem minor_scopes {s : Session} {t : Scopes} (hs : D.inv s) (h : s.scopes.Confined t) :
    D.Moves s { s with scopes := t } :=
  law.minor hs { Session.Minor.refl s with scopes := h }

theorem withArena {f : Arena → α × Arena} (h : ∀ a, (f a).2.functions = a.functions) :
    D.Holds c (CheckM.withArena f) (CheckM.withArena f) :=
  .modifyGet fun s hs => law.minor_arena hs (h s.arena)

theorem modifyArena {f : Arena → Arena} (h : ∀ a, (f a).functions = a.functions) :
    D.Holds c (CheckM.modifyArena f) (CheckM.modifyArena f) :=
  .modify fun s hs => law.minor_arena hs (h s.arena)

theorem modifyScopes {f : Scopes → Scopes} (h : ∀ s, Scopes.Confined s (f s)) :
    D.Holds c (CheckM.modifyScopes f) (CheckM.modifyScopes f) :=
  .modify fun s hs => law.minor_scopes hs (h s.scopes)

theorem modifyHub {f : Hub → Hub} (cursor : ∀ h, (f h).cursor = h.cursor)
    (suppressions : ∀ h, (f h).suppressions = h.suppressions) :
    D.Holds c (CheckM.modifyHub f) (CheckM.modifyHub f) := by
  refine .modify fun s hs => law.minor hs ?_
  exact { Session.Minor.refl s with cursor := cursor s.hub, suppressions := suppressions s.hub }

theorem report (finding : Finding) : D.Holds c (CheckM.report finding) (CheckM.report finding) :=
  law.modifyHub (fun h => h.cursor_reportAt h.cursor finding)
    fun h => h.suppressions_reportAt h.cursor finding

theorem reportAll (findings : List Finding) :
    D.Holds c (CheckM.reportAll findings) (CheckM.reportAll findings) :=
  law.modifyHub (Hub.cursor_reportAll · findings) (Hub.suppressions_reportAll · findings)

theorem warn (text : String) : D.Holds c (CheckM.warn text) (CheckM.warn text) :=
  .modify fun s hs => law.minor hs { Session.Minor.refl s with }

theorem flush : D.Holds c CheckM.flush CheckM.flush :=
  .modify fun s hs => law.minor hs { Session.Minor.refl s with }

omit law in
theorem display (t : Ty) : D.Holds c (CheckM.display t) (CheckM.display t) :=
  getArena.bind fun _ => .pure _

omit law in
theorem stamp : D.Holds c CheckM.stamp CheckM.stamp :=
  Holds.get.bind fun _ => .pure _

omit law in
theorem hint? (e : Expr) : D.Holds c (CheckM.hint? e) (CheckM.hint? e) :=
  Holds.read.bind fun _ => .pure _

omit law in
theorem confidenceOf (e : Expr) : D.Holds c (CheckM.confidenceOf e) (CheckM.confidenceOf e) := by
  refine (hint? e).bind fun hint => ?_
  cases hint with
  | none => exact Holds.read.bind fun _ => .pure _
  | some found => exact .pure _

omit law in
theorem defaultProbability : D.Holds c CheckM.defaultProbability CheckM.defaultProbability :=
  Holds.read.bind fun _ => .pure _

theorem readAttribute (t : Ty) (name : String) (confidence : Float) :
    D.Holds c (CheckM.readAttribute t name confidence)
      (CheckM.readAttribute t name confidence) := by
  refine .get_bind fun s hs => ?_
  refine Ends.bind (.of_ok (outcome_modify c s _) ?_) fun _ t _ ht => ?_
  · exact law.minor_arena hs (s.arena.functions_readAttribute _ name confidence)
  · exact ((law.reportAll _).bind fun _ => .pure _) t ht

theorem bindName (name : String) (value : Ty) (confidence : Float) :
    D.Holds c (CheckM.bindName name value confidence)
      (CheckM.bindName name value confidence) := by
  refine .get_bind fun s hs => .get_bind ?_
  refine Ends.bind (.of_ok (outcome_modify c s _) ?_) fun _ t _ ht => law.reportAll _ t ht
  exact law.minor_scopes hs (s.scopes.confined_add s.arena name value confidence)

theorem standIn (id : ClassId) : D.Holds c (CheckM.standIn id) (CheckM.standIn id) := by
  refine Holds.get.bind fun s => ?_
  split
  · exact .pure _
  · refine (law.withArena fun a => rfl).bind fun object => ?_
    refine Holds.bind (.modify fun s hs => law.minor hs ?_) fun _ => .pure _
    exact { Session.Minor.refl s with }

theorem addModule (info : ModuleInfo) :
    D.Holds c (CheckM.withArena (·.addModule info)) (CheckM.withArena (·.addModule info)) :=
  law.withArena fun _ => rfl

theorem adoptTable {table : SymbolTable} (name : String) (h : c.modules.Offers table) :
    D.Holds c (Check.adoptTable name table) (Check.adoptTable name table) := by
  unfold Check.adoptTable
  refine Holds.bind (law.adopting h ?_) fun exports => (law.addModule _).bind fun id => .pure _
  exact .tableMapM fun entry hm => .adopt hm

theorem moduleAt? {path : String} (name : String)
    (h : ∀ table, c.modules.get? path = some table → c.modules.Offers table) :
    D.Holds c (Check.moduleAt? path name) (Check.moduleAt? path name) :=
  .read_bind (.optionMapM fun table ht => law.adoptTable name (h table ht))

theorem wrapModule (parts : List String) (value : Ty) (depth : Nat) :
    D.Holds c (Check.wrapModule parts value depth) (Check.wrapModule parts value depth) := by
  refine (law.moduleAt? _ fun _ => .module _).bind fun found => ?_
  split
  · refine Holds.bind (law.modifyArena ?_) fun _ => .pure _
    intro a
    rfl
  · exact (law.addModule _).bind fun id => .pure _

theorem setName (name : String) (t : Ty) (confidence : Float) :
    D.Holds c (CheckM.modifyScopes (·.set name t confidence))
      (CheckM.modifyScopes (·.set name t confidence)) :=
  law.modifyScopes fun s => s.confined_set name t confidence

theorem importModule (a : Alias) :
    D.Holds c (Check.importModule a) (Check.importModule a) := by
  refine (law.moduleAt? _ fun _ => .module _).bind fun value => ?_
  simp only
  split
  · exact law.setName _ _ _
  · refine Holds.bind (.foldlM fun depth _ value => law.wrapModule _ value depth) fun bound => ?_
    exact law.setName _ _ _

theorem importAll {table : SymbolTable} (h : c.modules.Offers table) :
    D.Holds c (Check.importAll table) (Check.importAll table) := by
  refine law.adopting h (.bind (.forIn fun entry hm _ => ?_) fun _ => .pure _)
  exact (Adopts.adopt (List.mem_filter.1 hm).1).bind fun t => (Adopts.set _ _ _).bind fun _ => .pure _

theorem importName {module : String} {table? : Option SymbolTable} (a : Alias)
    (h : c.modules.get? (modulePath module) = table?) :
    D.Holds c (Check.importName module table? a) (Check.importName module table? a) := by
  unfold Check.importName
  split
  · rename_i table binding hfound
    obtain ⟨found, htable, hbinding⟩ := Option.bind_eq_some_iff.1 hfound
    obtain ⟨b, hget, hb⟩ := Option.map_eq_some_iff.1 hbinding
    cases hb
    rw [htable] at h
    refine (law.adopting (.module module h) (.adopt (mem_of_lookup hget))).bind fun t => ?_
    exact law.setName _ _ _
  · rename_i hnone
    have hunbound : ((c.modules.get? (modulePath module)).bind fun t => t.bindings.get? a.name) =
        none := by
      rw [h]
      cases table? with
      | none => rfl
      | some table => exact Option.map_eq_none_iff.1 hnone
    refine (law.moduleAt? _ fun _ => .below module a.name hunbound).bind fun found => ?_
    cases found with
    | none => exact law.setName _ _ _
    | some value => exact law.setName _ _ _

theorem importFrom (module : String) (names : List Alias) :
    D.Holds c (Check.importFrom module names) (Check.importFrom module names) := by
  refine .read_bind (Holds.bind (.forIn fun a _ _ => ?_) fun _ => .pure _)
  split
  · split
    · rename_i table h
      exact (law.importAll (.module module h)).bind fun _ => .pure _
    · exact .pure _
  · exact (law.importName a rfl).bind fun _ => .pure _

end Discipline.Basic

end Credence

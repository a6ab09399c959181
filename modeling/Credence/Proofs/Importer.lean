import Credence.Proofs.Foreign
import Credence.Proofs.Recall

namespace Credence

open Check CheckM Discipline

variable {c : Context} {m : ScopeId}

namespace Session

variable {s t u : Session}

/-- What a scope binds changes in calls of functions that are not foreign to it. In between it binds the
same, and new functions are foreign. -/
inductive Changes (c : Context) (m : ScopeId) : Session → Session → Prop
  | still {s t : Session} (bindings : (t.scopes.scopeAt m).bindings = (s.scopes.scopeAt m).bindings)
    (brings : s.world.BringsForeign t.world m) : Changes c m s t
  | call {s : Session} (n : Nat) {id : FunctionId} (receiver : Option Ty) (args : CallArgs)
    (h : s.world.Own m id) : Changes c m s (((innerUpTo n).call id receiver args).outcome c s).2
  | trans {s t u : Session} (h : Changes c m s t) (k : Changes c m t u) : Changes c m s u

theorem Changes.refl (c : Context) (m : ScopeId) (s : Session) : s.Changes c m s :=
  .still rfl (.refl _ m)

theorem Changes.bindings_eq (h : s.Changes c m t) (hnone : ∀ id, ¬s.world.Own m id) :
    (t.scopes.scopeAt m).bindings = (s.scopes.scopeAt m).bindings ∧ ∀ id, ¬t.world.Own m id := by
  induction h with
  | still bindings brings => exact ⟨bindings, fun id hid => hnone id (brings id hid).1⟩
  | call n receiver args h => exact absurd h (hnone _)
  | trans h k ih ih' =>
    obtain ⟨hbindings, hmiddle⟩ := ih hnone
    obtain ⟨hbindings', hlast⟩ := ih' hmiddle
    exact ⟨hbindings'.trans hbindings, hlast⟩

end Session

/-- What the steps of a check are part of. -/
inductive Phase
  | any
  | imports
  | foreign

/-- In an import nothing is defined, and in the body of a foreign function nothing that declares a name
global. -/
def Phase.sites (phase : Phase) : Sites :=
  fun body _ _ => phase ≠ .imports ∧ (phase = .foreign → ¬body.DeclaresGlobal)

def Phase.blocks (phase : Phase) (body : List Stmt) : Prop :=
  phase = .foreign → ¬DeclaresGlobal body

structure Session.Follows (c : Context) (m : ScopeId) (phase : Phase) (s t : Session) : Prop where
  balanced : s.Balanced t
  declares : s.scopes.DeclaresHere t.scopes
  brings : phase = .imports → s.world.BringsForeign t.world m
  changes : phase = .foreign → s.Changes c m t

/-- The discipline of a phase: scopes are hosted, and the body of a foreign function runs in clear places. -/
def Discipline.beside (c : Context) (m : ScopeId) (phase : Phase) : Discipline where
  inv s := s.scopes.Hosts m ∧ (phase = .foreign → s.scopes.Clear m)
  le := Session.Follows c m phase
  stop _ := True
  le_refl s := ⟨.refl s, fun _ _ _ => rfl, fun _ => .refl _ m, fun _ => Session.Changes.refl c m s⟩
  le_trans h k :=
    { balanced := h.balanced.trans k.balanced
      declares := h.declares.trans h.balanced.scopes k.declares
      brings := fun hphase => (h.brings hphase).trans (k.brings hphase)
      changes := fun hphase => (h.changes hphase).trans (k.changes hphase) }

namespace Beside

variable {phase : Phase} {s t u v : Session}

theorem moves_of_still (hs : (beside c m phase).inv s) (balanced : s.Balanced t)
    (declares : s.scopes.DeclaresHere t.scopes)
    (brings : phase ≠ .any → s.world.BringsForeign t.world m)
    (still : phase = .foreign →
      t.scopes.Clear m ∧ (t.scopes.scopeAt m).bindings = (s.scopes.scopeAt m).bindings) :
    (beside c m phase).Moves s t := by
  refine ⟨⟨hs.1.grown balanced.scopes.grown, fun h => (still h).1⟩, ⟨balanced, declares, ?_, ?_⟩⟩
  · exact fun h => brings (by simp [h])
  · exact fun h => .still (still h).2 (brings (by simp [h]))

theorem minor (hs : (beside c m phase).inv s) (h : s.Minor t) : (beside c m phase).Moves s t := by
  refine moves_of_still hs h.balanced (fun id _ hid => h.scopes.redirects id hid) (fun _ => ?_)
    fun hphase => ?_
  · exact World.bringsForeign_of_functions h.balanced.scopes.grown h.functions
  · exact ⟨(hs.2 hphase).confined h.scopes, (hs.2 hphase).bindings_eq h.scopes⟩

theorem define {f : FunctionInfo} (hs : (beside c m phase).inv s) (hf : phase.sites.Defines s f) :
    (beside c m phase).Moves s { s with arena := (s.arena.addFunction f).2 } := by
  refine moves_of_still hs { Session.Balanced.refl s with } (fun _ _ _ => rfl) (fun hphase => ?_)
    fun hphase => ⟨hs.2 hphase, rfl⟩
  have hforeign : phase = .foreign := by
    cases phase with
    | any => exact absurd rfl hphase
    | imports => exact absurd rfl hf.site.1
    | foreign => rfl
  refine World.bringsForeign_of_code (.of_all rfl) (fun id hid => ?_) fun id hin hid => ?_
  · exact congrArg FunctionInfo.code (getD_push_of_lt hid)
  have hlast : id = ⟨s.arena.functions.size⟩ := by
    have hlt : id.val < (s.arena.functions.push f).size := hin
    rw [Array.size_push] at hlt
    cases id
    exact congrArg FunctionId.mk (Nat.le_antisymm (Nat.le_of_lt_succ hlt) (Nat.le_of_not_lt hid))
  have hnew : (s.arena.addFunction f).2.functionAt id = f := hlast ▸ s.arena.functionAt_addFunction f
  refine ⟨?_, ?_⟩
  · change s.scopes.Avoids m ((s.arena.addFunction f).2.functionAt id).captured
    rw [hnew]
    exact (hs.2 hforeign).encloses hs.1 hf.captured
  · change ¬((s.arena.addFunction f).2.functionAt id).body.DeclaresGlobal
    rw [hnew]
    exact hf.site.2 hforeign

theorem inv_enter {name : String} (hs : (beside c m phase).inv s)
    (henter : t.scopes = (s.scopes.enter name).2) : (beside c m phase).inv t := by
  refine ⟨henter ▸ hs.1.grown (.of_push rfl), fun hphase => ?_⟩
  exact henter ▸ (hs.2 hphase).enter hs.1 name

theorem moves_of_enter {name : String} (hs : (beside c m phase).inv s)
    (hmoves : (beside c m phase).Moves t u) (henter : t.scopes = (s.scopes.enter name).2)
    (hfunctions : t.arena.functions = s.arena.functions) (balanced : s.Balanced v)
    (hleft : v.arena.functions = u.arena.functions) (hgrown : u.scopes.Grown v.scopes)
    (hnothing : u.scopes.DeclaresNothing v.scopes)
    (bindings : { u.scopes with current := s.scopes.current }.Clear m →
      (v.scopes.scopeAt m).bindings = (u.scopes.scopeAt m).bindings) :
    (beside c m phase).Moves s v := by
  have hfollows : t.Follows c m phase u := hmoves.2
  have hkept : (s.scopes.enter name).2.Kept u.scopes := henter ▸ hfollows.balanced.scopes
  have houter : s.scopes.DeclaresNothing u.scopes := by
    refine Scopes.DeclaresHere.of_push rfl rfl (t := (s.scopes.enter name).2) ?_
    exact henter ▸ hfollows.declares
  have hnothing : s.scopes.DeclaresNothing v.scopes := fun id hid =>
    (hnothing id (Nat.lt_of_lt_of_le hid hkept.of_enter.size)).trans (houter id hid)
  have hentered : s.scopes.Grown t.scopes := henter ▸ .of_push rfl
  have hin : s.world.BringsForeign t.world m := World.bringsForeign_of_functions hentered hfunctions
  have hout : u.world.BringsForeign v.world m := World.bringsForeign_of_functions hgrown hleft
  have hclear (hphase : phase = .foreign) : { u.scopes with current := s.scopes.current }.Clear m :=
    (hs.2 hphase).back hkept.of_enter houter
  refine ⟨⟨hs.1.grown balanced.scopes.grown, fun hphase => ?_⟩, balanced, hnothing.here, ?_, ?_⟩
  · exact (hs.2 hphase).back balanced.scopes hnothing
  · exact fun hphase => (hin.trans (hfollows.brings hphase)).trans hout
  · intro hphase
    have hstart : s.Changes c m t := by
      refine .still ?_ hin
      rw [henter, Scopes.scopeAt_of_push hs.1.inside rfl]
    exact (hstart.trans (hfollows.changes hphase)).trans (.still (bindings (hclear hphase)) hout)

theorem moves_of_exit {name : String} (hs : (beside c m phase).inv s)
    (hmoves : (beside c m phase).Moves t u) (henter : t.scopes = (s.scopes.enter name).2)
    (hfunctions : t.arena.functions = s.arena.functions) (balanced : s.Balanced v)
    (hleft : v.arena.functions = u.arena.functions) (hexit : v.scopes = u.scopes.exit) :
    (beside c m phase).Moves s v := by
  have hall : v.scopes.all = u.scopes.all := hexit ▸ u.scopes.all_exit
  exact moves_of_enter hs hmoves henter hfunctions balanced hleft (.of_all hall) (.of_all hall)
    fun _ => congrArg Scope.bindings (Scopes.scopeAt_of_all hall m)

section Brackets

variable {α : Type} {name : String} {x y : CheckM α}

theorem inScope (h : (beside c m phase).Holds c x y) :
    (beside c m phase).Holds c (CheckM.inScope name x) (CheckM.inScope name y) := by
  intro s hs
  have hx := h { s with scopes := (s.scopes.enter name).2 } (inv_enter hs rfl)
  have hb := hx.moves.2.balanced
  refine .after rfl (.ensuring hx (moves_of_exit hs hx.moves rfl rfl ?_ rfl rfl))
  exact ⟨hb.scopes.exit, hb.frames, hb.classScopes, hb.suppressions, hb.guard, hb.file⟩

theorem inClassBody {id : ClassId} {x y : ScopeId → CheckM α}
    (h : ∀ scope, (beside c m phase).Holds c (x scope) (y scope)) :
    (beside c m phase).Holds c (CheckM.inClassBody name id x) (CheckM.inClassBody name id y) := by
  intro s hs
  have hx := h ⟨s.scopes.all.size⟩
    { s with
      scopes := (s.scopes.enter name).2
      classScopes := (⟨s.scopes.all.size⟩, id) :: s.classScopes } (inv_enter hs rfl)
  have hb := hx.moves.2.balanced
  refine .after rfl (.after rfl (.ensuring hx (moves_of_exit hs hx.moves rfl rfl ?_ rfl rfl)))
  refine ⟨hb.scopes.exit, hb.frames, ?_, hb.suppressions, hb.guard, hb.file⟩
  exact congrArg List.tail hb.classScopes

theorem inBranch {x y : CheckM Unit} (h : (beside c m phase).Holds c x y) :
    (beside c m phase).Holds c (CheckM.inBranch name x) (CheckM.inBranch name y) := by
  intro s hs
  have hx := h { s with scopes := (s.scopes.enter name).2 } (inv_enter hs rfl)
  have hb := hx.moves.2.balanced
  have hparent := hb.scopes.parent_of_enter
  refine .after rfl (.ensuring hx (moves_of_enter hs hx.moves rfl rfl ?_ rfl ?_ ?_ fun hclear => ?_))
  · exact ⟨hb.scopes.exitBranch _, hb.frames, hb.classScopes, hb.suppressions, hb.guard, hb.file⟩
  · exact Scopes.grown_exitBranch hparent _
  · exact Scopes.declaresNothing_exitBranch hparent _
  · exact hclear.bindings_eq (Scopes.confined_exitBranch hparent _)

theorem suppressing {kinds : List DiagnosticKind} {x y : CheckM Unit}
    (h : (beside c m phase).Holds c x y) :
    (beside c m phase).Holds c (CheckM.suppressing kinds x) (CheckM.suppressing kinds y) := by
  intro s hs
  have hx := h { s with hub := s.hub.pushSuppression kinds } hs
  refine .after rfl (.ensuring hx ⟨hx.moves.1, ?_⟩)
  have hfollows : Session.Follows c m phase { s with hub := s.hub.pushSuppression kinds } _ := hx.moves.2
  have hb := hfollows.balanced
  refine ⟨⟨hb.scopes, hb.frames, hb.classScopes, ?_, hb.guard, hb.file⟩, hfollows.declares,
    hfollows.brings, fun hphase => ?_⟩
  · exact congrArg List.tail hb.suppressions
  · have hpush : s.Changes c m { s with hub := s.hub.pushSuppression kinds } := .still rfl (.refl _ m)
    exact (hpush.trans (hfollows.changes hphase)).trans (.still rfl (.refl _ m))

end Brackets

theorem adopting {α : Type} {table : SymbolTable} {x : AdoptM α} (htable : table.world.Plain)
    (hx : Adopts table x) : (beside c m phase).Holds c (Check.adopting x) (Check.adopting x) := by
  intro s hs
  have hstart : Adoption.Aside { arena := s.arena, scopes := s.scopes } m := Adoption.aside_start hs.1
  have hgives := Adoption.goesAside_of_adopts hx htable hstart
  refine .get_bind ?_
  unfold Adoption.Gives at hgives
  cases hrun : x.run { arena := s.arena, scopes := s.scopes } with
  | ok result =>
    rw [hrun] at hgives
    refine .of_ok rfl (moves_of_still hs { Session.Balanced.refl s with scopes := hgives.kept }
      hgives.declares (fun _ => hgives.brings) fun hphase => hgives.clear (hs.2 hphase))
  | error e => exact Holds.throw trivial s hs

theorem basic (hc : c.modules.Plain) : (beside c m phase).Basic c phase.sites where
  fault _ := trivial
  encloses h := h.balanced.scopes.encloses
  minor := minor
  define := define
  inScope := inScope
  inClassBody := inClassBody
  inBranch := inBranch
  suppressing := suppressing
  adopting hoffers hx := adopting (hc _ hoffers) hx

theorem reaches (line : Nat) : (beside c m phase).Reaches c line := by
  refine .modify fun s hs => moves_of_still hs { Session.Balanced.refl s with } (fun _ _ _ => rfl) (fun _ => ?_)
    fun hphase => ⟨hs.2 hphase, rfl⟩
  exact World.bringsForeign_of_functions (.of_all rfl) rfl

end Beside

/-- What a call does: nothing is declared where the call stands and around it. -/
structure Session.Calls (c : Context) (m : ScopeId) (phase : Phase) (s t : Session) : Prop where
  balanced : s.Balanced t
  declares : s.scopes.DeclaresNothing t.scopes
  changes : phase = .foreign → s.Changes c m t

def Discipline.calling (c : Context) (m : ScopeId) (phase : Phase) : Discipline where
  inv s := s.scopes.Hosts m
  le := Session.Calls c m phase
  stop _ := True
  le_refl s := ⟨.refl s, fun _ _ => rfl, fun _ => Session.Changes.refl c m s⟩
  le_trans h k :=
    { balanced := h.balanced.trans k.balanced
      declares := fun id hid =>
        (k.declares id (Nat.lt_of_lt_of_le hid h.balanced.scopes.size)).trans (h.declares id hid)
      changes := fun hphase => (h.changes hphase).trans (k.changes hphase) }

namespace Calling

variable {phase : Phase} {inner : Inner} {s t : Session} {id : FunctionId} {f : FunctionInfo}
  {arguments : List (String × Ty)} {guard : Guard}

theorem inv_entering (hm : s.scopes.Hosts m) (hforeign : phase = .foreign → s.scopes.Avoids m f.captured) :
    (beside c m phase).inv (Session.entering { s with guard } id f arguments) := by
  refine ⟨hm.grown (.of_push rfl), fun hphase => ?_⟩
  exact Scopes.clear_enterFunction hm (hforeign hphase) f.name arguments

theorem moves_leaving (hm : s.scopes.Hosts m) (hguard : s.guard.enter? f.guardKey = some guard)
    (h : (beside c m phase).Moves (Session.entering { s with guard } id f arguments) t) :
    (calling c m phase).Moves s (s.leaving t f) := by
  have hfollows : Session.Follows c m phase (Session.entering { s with guard } id f arguments) t := h.2
  have hbalanced := hfollows.balanced.leaving hguard
  have hall : (s.leaving t f).scopes.all = t.scopes.all := Scopes.all_exitFunction _
  refine ⟨hm.grown hbalanced.scopes.grown, hbalanced, fun id hid => ?_, fun hphase => ?_⟩
  · rw [Scopes.scopeAt_of_all hall]
    exact Scopes.DeclaresHere.of_push rfl rfl hfollows.declares id hid
  · have hstart : s.Changes c m (Session.entering { s with guard } id f arguments) := by
      refine .still ?_ (World.bringsForeign_of_functions (.of_push rfl) rfl)
      exact congrArg Scope.bindings (Scopes.scopeAt_of_push hm.inside rfl)
    refine (hstart.trans (hfollows.changes hphase)).trans (.still ?_ ?_)
    · exact congrArg Scope.bindings (Scopes.scopeAt_of_all hall m)
    · exact World.bringsForeign_of_functions (.of_all hall) rfl

theorem reportAll (findings : List Finding) :
    (calling c m phase).Holds c (CheckM.reportAll findings) (CheckM.reportAll findings) := by
  refine .modify fun s hs => ?_
  have hminor : s.Minor { s with hub := s.hub.reportAll findings } :=
    { Session.Minor.refl s with
      cursor := s.hub.cursor_reportAll findings
      suppressions := s.hub.suppressions_reportAll findings }
  exact ⟨hs, hminor.balanced, fun _ _ => rfl, fun _ => .still rfl (.refl _ m)⟩

theorem runs (id : FunctionId)
    (hbody : (beside c m phase).Holds c (evaluateBody inner (s.arena.functionAt id).body)
      (evaluateBody inner (s.arena.functionAt id).body)) (receiver : Option Ty) (args : CallArgs)
    (hm : s.scopes.Hosts m) (hforeign : phase = .foreign → s.world.Foreign m id) :
    (calling c m phase).Runs c (callOver inner id receiver args) (callOver inner id receiver args) s := by
  refine .callOver reportAll hm fun t arguments _ hscopes ht => ?_
  refine .resultOver ht (fun guard hguard => ?_) fun guard inferred u _ _ hu => ?_
  · refine .runBody (inv_entering ht fun hphase => ?_) hbody (fun _ h => h) fun u hu =>
      moves_leaving ht hguard hu
    exact hscopes ▸ (hforeign hphase).captured
  · refine ⟨hu, { Session.Balanced.refl u with }, fun _ _ => rfl, fun _ => .still rfl ?_⟩
    exact World.bringsForeign_remember u.arena u.scopes m id _ _

end Calling

theorem declaresHere_declareGlobal (s : Scopes) (name : String) : s.DeclaresHere (s.declareGlobal name) :=
  fun _ _ hid => s.redirects_redirect name s.moduleScope hid

namespace Beside

variable {phase : Phase} {n : Nat}

/-- A stage at which everything inside stays beside the scope, in a phase in which not only imports are
made. -/
abbrev StageUpTo (c : Context) (m : ScopeId) (phase : Phase) (n : Nat) : Prop :=
  (beside c m phase).Stage c phase.sites (fun _ => True) phase.blocks (innerUpTo n) (innerUpTo n)

theorem checkable (hphase : phase ≠ .imports) {body : List Stmt} (hbody : phase.blocks body) {s : Stmt}
    (hs : s ∈ body) : Stage.Checkable phase.sites (fun _ => True) phase.blocks s where
  expressions _ _ := trivial
  keywords _ _ := trivial
  blocks b hb h hglobal := hbody h (.block hs hb hglobal)
  body d hd h hglobal := by
    refine hbody h (.definition hs ?_)
    rwa [Stmt.definitionBody, hd]
  site d hd := by
    refine ⟨hphase, fun h hglobal => hbody h (.definition hs ?_)⟩
    rwa [Stmt.definitionBody, hd]

theorem declareGlobal (name : String) :
    (beside c m .any).Holds c (CheckM.modifyScopes (·.declareGlobal name))
      (CheckM.modifyScopes (·.declareGlobal name)) := by
  refine .modify fun s hs => moves_of_still hs ?_ (declaresHere_declareGlobal s.scopes name)
    (fun h => absurd rfl h) nofun
  exact { Session.Balanced.refl s with scopes := (s.scopes.steady_declareGlobal name).kept }

theorem stage_succ (hphase : phase ≠ .imports) (ih : StageUpTo c m phase n)
    (hcall : ∀ (id : FunctionId) (receiver : Option Ty) (args : CallArgs),
      (beside c m phase).Holds c (callOver (innerUpTo n) id receiver args)
        (callOver (innerUpTo n) id receiver args)) :
    StageUpTo c m phase (n + 1) :=
  { ih with
    expr := fun _ => ih.exprOver ⟨fun _ _ => trivial, fun _ _ _ => ⟨hphase, fun _ h => h⟩⟩
    block := fun {body} hbody => ih.blockWith fun s hs =>
      ih.checkStmt (checkable hphase hbody hs) (fun line _ => Beside.reaches line) fun names hnames name _ => by
        cases phase with
        | any => exact declareGlobal name
        | imports => exact absurd rfl hphase
        | foreign => exact absurd (.here hs hnames) (hbody rfl)
    call := hcall }

theorem stage_zero (hc : c.modules.Plain) : StageUpTo c m phase 0 :=
  { basic hc with
    expr := fun _ => .throw trivial
    block := fun _ => .throw trivial
    call := fun _ _ _ => .throw trivial
    children := fun _ _ => trivial }

theorem evaluateBody (L : StageUpTo c m phase n) {body : FunctionBody}
    (h : phase = .foreign → ¬body.DeclaresGlobal) :
    (beside c m phase).Holds c (Check.evaluateBody (innerUpTo n) body)
      (Check.evaluateBody (innerUpTo n) body) := by
  refine L.evaluateBody ?_
  cases body with
  | statements definition => exact h
  | lambda value => trivial

theorem stage_any (hc : c.modules.Plain) (n : Nat) : StageUpTo c m .any n := by
  induction n with
  | zero => exact stage_zero hc
  | succ n ih =>
    refine stage_succ nofun ih fun id receiver args s hs => ?_
    have hruns := Calling.runs id (evaluateBody ih nofun) receiver args hs.1 nofun
    refine ⟨rfl, ⟨⟨hruns.moves.1, nofun⟩, ?_⟩, fun _ _ => trivial⟩
    exact ⟨hruns.moves.2.balanced, hruns.moves.2.declares.here, nofun, nofun⟩

theorem stage_foreign (hc : c.modules.Plain) (n : Nat) : StageUpTo c m .foreign n := by
  induction n with
  | zero => exact stage_zero hc
  | succ n ih =>
    refine stage_succ nofun ih fun id receiver args s hs => ?_
    have hends (t : Session) (balanced : s.Balanced t) (declares : s.scopes.DeclaresNothing t.scopes)
        (changes : s.Changes c m t) : (beside c m .foreign).Moves s t :=
      ⟨⟨hs.1.grown balanced.scopes.grown, fun _ => (hs.2 rfl).back balanced.scopes declares⟩,
        balanced, declares.here, nofun, fun _ => changes⟩
    refine ⟨rfl, ?_, fun _ _ => trivial⟩
    by_cases hforeign : s.world.Foreign m id
    · have hruns := Calling.runs id (evaluateBody ih fun _ => hforeign.body) receiver args hs.1
        fun _ => hforeign
      exact hends _ hruns.moves.2.balanced hruns.moves.2.declares (hruns.moves.2.changes rfl)
    · have hruns := Calling.runs id (evaluateBody (stage_any hc n) nofun) receiver args hs.1 nofun
      refine hends _ hruns.moves.2.balanced hruns.moves.2.declares
        (.call (n + 1) receiver args ⟨?_, hforeign⟩)
      exact Classical.byContradiction fun hout => hforeign (World.foreign_of_not_lt hs.1 hout)

theorem changes_call (hc : c.modules.Plain) {s : Session} (hm : s.scopes.Hosts m) {id : FunctionId}
    (hid : s.world.Foreign m id) (n : Nat) (receiver : Option Ty) (args : CallArgs) :
    s.Changes c m (((innerUpTo n).call id receiver args).outcome c s).2 := by
  cases n with
  | zero => exact Session.Changes.refl c m s
  | succ n =>
    have hbody := evaluateBody (stage_foreign (m := m) hc n) fun _ => hid.body
    exact (Calling.runs id hbody receiver args hm fun _ => hid).moves.2.changes rfl

end Beside

/-- An import of any form. -/
def Stmt.Imports (stmt : Stmt) : Prop :=
  (∃ names, stmt.form = .importModules names) ∨
    ∃ module names level, stmt.form = .importFrom module names level

theorem Discipline.Basic.holds_of_imports {D : Discipline} {N : Sites} (law : D.Basic c N) (inner : Inner)
    {stmt : Stmt} (hline : D.Reaches c stmt.line) (h : stmt.Imports) :
    D.Holds c (checkStmt inner stmt) (checkStmt inner stmt) := by
  refine Holds.bind hline fun _ => ?_
  rcases h with ⟨names, h⟩ | ⟨module, names, level, h⟩
  · rw [h]
    refine Holds.bind (.forIn fun a _ _ => ?_) fun _ => .pure _
    exact (law.importModule a).bind fun _ => .pure _
  · rw [h]
    exact law.importFrom module names

theorem Stmt.Imports.bringsForeign {stmt : Stmt} (h : stmt.Imports) (hc : c.modules.Plain) {s : Session}
    (hm : s.scopes.Hosts m) (inner : Inner) :
    s.world.BringsForeign ((checkStmt inner stmt).outcome c s).2.world m := by
  have law : (Discipline.beside c m .imports).Basic c Phase.imports.sites := Beside.basic hc
  exact (law.holds_of_imports inner (Beside.reaches stmt.line) h s ⟨hm, nofun⟩).moves.2.brings rfl

namespace Session

variable {s t : Session}

/-- What can come after a session in a run: statements, expressions and calls, and other places in a tree
of scopes that may have grown. -/
inductive Later (c : Context) (s : Session) : Session → Prop
  | refl : Later c s s
  | stmt {t : Session} (n : Nat) (stmt : Stmt) (h : Later c s t) :
    Later c s ((checkStmt (innerUpTo n) stmt).outcome c t).2
  | expr {t : Session} (n : Nat) (e : Expr) (h : Later c s t) :
    Later c s (((innerUpTo n).expr e).outcome c t).2
  | call {t : Session} (n : Nat) (id : FunctionId) (receiver : Option Ty) (args : CallArgs)
    (h : Later c s t) : Later c s (((innerUpTo n).call id receiver args).outcome c t).2
  | move {t : Session} (scopes : Scopes) (hgrown : t.scopes.Grown scopes) (h : Later c s t) :
    Later c s { t with scopes }

theorem Later.grows (h : s.Later c t) :
    s.scopes.Grown t.scopes ∧ t.Meets (Unaltered s.arena.functions) := by
  have L (n : Nat) := level_unaltered s.arena.functions c n
  induction h with
  | refl => exact ⟨.of_all rfl, fun i hi => ⟨hi, rfl⟩⟩
  | stmt n stmt _ ih =>
    have checkable : Stage.Checkable (fun _ _ _ => True) (fun _ => True) (fun _ => True) stmt :=
      ⟨fun _ _ => trivial, fun _ _ => trivial, fun _ _ => trivial, fun _ _ => trivial, fun _ _ => trivial⟩
    have hmoves := ((L n).checkStmt checkable _ ih.2).moves
    exact ⟨ih.1.trans hmoves.2.scopes.grown, hmoves.1⟩
  | expr n e _ ih =>
    have hmoves := ((L n).expr (e := e) trivial _ ih.2).moves
    exact ⟨ih.1.trans hmoves.2.scopes.grown, hmoves.1⟩
  | call n id receiver args _ ih =>
    have hmoves := ((L n).call id receiver args _ ih.2).moves
    exact ⟨ih.1.trans hmoves.2.scopes.grown, hmoves.1⟩
  | move scopes hgrown _ ih => exact ⟨ih.1.trans hgrown, ih.2⟩

theorem Later.foreign (h : s.Later c t) {id : FunctionId} (hin : id.val < s.arena.functions.size)
    (hid : s.world.Foreign m id) : t.world.Foreign m id := by
  have hbare : (t.arena.functionAt id).bare = (s.arena.functionAt id).bare := (h.grows.2 id.val hin).2
  exact hid.grown h.grows.1 (congrArg FunctionInfo.code hbare :)

end Session

theorem Scopes.Rooted.avoids {s : Scopes} {id : ScopeId} (h : s.Rooted id) (hid : id.val < s.all.size)
    (hparents : ∀ id, ∀ p ∈ (s.scopeAt id).parent, p.val < s.all.size) (hm : ¬m.val < s.all.size) :
    s.Avoids m id := by
  induction h with
  | root hroot => exact .root hid (fun heq => hm (heq ▸ hid)) hroot
  | child hparent _ ih =>
    exact .child hid (fun heq => hm (heq ▸ hid)) hparent (ih (hparents _ _ hparent))

theorem Check.hosts_start {world : World} (hworld : world.Sound) (parent : Option ScopeId) (path : String)
    (filter : Filter) :
    (start world parent path filter).2.scopes.Hosts (start world parent path filter).1 := by
  have hglobal : world.scopes.Avoids ⟨world.scopes.all.size⟩ Scopes.global :=
    (hworld.scopes.rooted _).avoids hworld.scopes.global (fun id => (hworld.scopes.scope id).parent)
      (Nat.lt_irrefl _)
  have hset (names : List String) (s : Scopes) :
      s.Grown (names.foldl (fun s name => s.set name .str 1.0) s) := by
    induction names generalizing s with
    | nil => exact .of_all rfl
    | cons name rest ih => exact (s.steady_set name .str 1.0).kept.grown.trans (ih _)
  -- The scope is put beside those of the world, and then names are bound in it.
  have hput (outer : Scopes) (hall : outer.all = world.scopes.all) (names : List String) :
      (names.foldl (fun s name => s.set name .str 1.0)
        ((outer.enter (moduleName path)).2.setModule (outer.enter (moduleName path)).1)).Hosts
        (outer.enter (moduleName path)).1 := by
    have hpush := congrArg (·.push { name := moduleName path, parent := some outer.current }) hall
    have hnew : (outer.enter (moduleName path)).1 = ⟨world.scopes.all.size⟩ :=
      congrArg (fun all : Array Scope => (⟨all.size⟩ : ScopeId)) hall
    rw [hnew]
    refine Scopes.Hosts.grown ⟨?_, hglobal.grown (.of_push hpush)⟩ (hset names _)
    simp [Scopes.setModule, Scopes.enter, Scopes.alloc, Scopes.touch, hall]
  unfold start
  cases parent with
  | none => exact hput world.scopes rfl _
  | some scope => exact hput (world.scopes.goTo scope) rfl _

/-- A run in which functions are imported, by an import of any form, and one of them is called later with any
arguments. If no table on offer has a function that declares a name global, the call changes what the module
binds in calls of functions that are not foreign to its scope, and not at all if there are none. -/
theorem Check.imported_call_changes {world : World} (hworld : world.Sound) (hc : c.modules.Plain)
    (parent : Option ScopeId) (path : String) (filter : Filter) {s t : Session} {stmt : Stmt}
    {id : FunctionId} (k n : Nat) (receiver : Option Ty) (args : CallArgs)
    (hs : (start world parent path filter).2.Later c s) (himports : stmt.Imports)
    (hnew : ¬id.val < s.arena.functions.size)
    (hmade : id.val < ((checkStmt (innerUpTo k) stmt).outcome c s).2.arena.functions.size)
    (ht : ((checkStmt (innerUpTo k) stmt).outcome c s).2.Later c t) :
    let m := (start world parent path filter).1
    let u := (((innerUpTo n).call id receiver args).outcome c t).2
    t.Changes c m u ∧
      ((∀ other, ¬t.world.Own m other) →
        (u.scopes.scopeAt m).bindings = (t.scopes.scopeAt m).bindings) := by
  intro m u
  have hm : s.scopes.Hosts m := (hosts_start hworld parent path filter).grown hs.grows.1
  have hbrings := himports.bringsForeign hc hm (innerUpTo k)
  have himported : ((checkStmt (innerUpTo k) stmt).outcome c s).2.world.Foreign m id := by
    by_contra hown
    exact hnew (hbrings id ⟨hmade, hown⟩).1.1
  have hrun : s.Later c ((checkStmt (innerUpTo k) stmt).outcome c s).2 := .stmt k stmt .refl
  have hmt : t.scopes.Hosts m := hm.grown (hrun.grows.1.trans ht.grows.1)
  have hchanges : t.Changes c m u :=
    Beside.changes_call hc hmt (ht.foreign hmade himported) n receiver args
  exact ⟨hchanges, fun hnone => (hchanges.bindings_eq hnone).1⟩

def library (body : List Stmt) : SymbolTable where
  world :=
    { arena :=
        { functions := #[
            { name := "load", body := .statements ⟨"load", {}, body, none, [], false, default⟩
              captured := ⟨1⟩ }] }
      scopes :=
        { all := #[
            { name := "__global__" },
            { name := "lib", parent := some Scopes.global
              bindings := .ofList [("load", ⟨.function ⟨0⟩, 1.0, false⟩)] }] } }
  scope := ⟨1⟩
  file := "lib.py"

def offering (body : List Stmt) : Context where
  treeFile := "main.py"
  modules := ⟨[("lib", library body)]⟩

def Session.importer : Session :=
  (start {} none "main.py" {}).2

def importingLoad : Stmt :=
  { id := 0, form := .importFrom "lib" [⟨"load", none⟩] 0, span := default }

def Session.imported (body : List Stmt) : Session :=
  ((checkStmt (innerUpTo 0) importingLoad).outcome (offering body) importer).2

theorem plain_offering (body : List Stmt) (hbody : ¬DeclaresGlobal body) : (offering body).modules.Plain := by
  intro table hoffers
  obtain ⟨path, hmem⟩ := hoffers.mem
  cases List.mem_singleton.1 hmem
  have hroot (id : ScopeId) (hid : id ≠ ⟨1⟩) : ((library body).world.scopes.scopeAt id).parent = none := by
    rcases id with _ | _ | i
    · rfl
    · exact absurd rfl hid
    · rfl
  refine ⟨fun id => ?_, fun id => ?_⟩
  · by_cases hid : id = ⟨1⟩
    · exact hid ▸ .child rfl (.root rfl)
    · exact .root (hroot id hid)
  · rcases id with _ | i
    · exact hbody
    · exact fun h => h

def loading : List Stmt :=
  [{ id := 1, form := .importModules [⟨"json", none⟩], span := default }]

theorem not_declaresGlobal_loading : ¬DeclaresGlobal loading := by
  intro h
  cases h with
  | here hs h => cases List.mem_singleton.1 hs; cases h
  | block hs hb _ => cases List.mem_singleton.1 hs; cases hb
  | definition hs h =>
    cases List.mem_singleton.1 hs
    cases h with
    | here hs _ => cases hs
    | block hs _ _ => cases hs
    | definition hs _ => cases hs

theorem Check.imported_call_changes_loading :
    World.Sound {} ∧ (offering loading).modules.Plain ∧
      ¬0 < Session.importer.arena.functions.size ∧
      0 < (Session.imported loading).arena.functions.size ∧
      (∀ other, ¬(Session.imported loading).world.Own ⟨1⟩ other) ∧
      ((((innerUpTo 2).call ⟨0⟩ none {}).outcome (offering loading)
        (Session.imported loading)).2.scopes.scopeAt ⟨1⟩).bindings =
        ((Session.imported loading).scopes.scopeAt ⟨1⟩).bindings := by
  have hplain := plain_offering loading not_declaresGlobal_loading
  have hmade : 0 < (Session.imported loading).arena.functions.size := by decide +kernel
  have himports : importingLoad.Imports := .inr ⟨"lib", _, 0, rfl⟩
  have hnone : ∀ other, ¬(Session.imported loading).world.Own ⟨1⟩ other := by
    intro other hown
    have hm := hosts_start World.sound_empty none "main.py" {}
    have hbrings := himports.bringsForeign hplain hm (innerUpTo 0)
    exact absurd (hbrings other hown).1.1 (Nat.not_lt_zero _)
  refine ⟨World.sound_empty, hplain, Nat.not_lt_zero _, hmade, hnone, ?_⟩
  exact (Check.imported_call_changes World.sound_empty hplain none "main.py" {} 0 2 none {} .refl himports
    (Nat.not_lt_zero _) hmade .refl).2 hnone

/-- If the only function there is declares the name global, its call binds the name in the module that has
imported it. -/
theorem Check.imported_call_binds_in_importer :
    let body := { id := 2, form := .globalNames ["json"], span := default } :: loading
    let called := ((innerUpTo 2).call ⟨0⟩ none {}).outcome (offering body) (Session.imported body)
    (Session.imported body).arena.functions.size = 1 ∧
      ((Session.imported body).scopes.scopeAt ⟨1⟩).bindings.contains "json" = false ∧
      (called.2.scopes.scopeAt ⟨1⟩).bindings.contains "json" = true := by
  decide +kernel

end Credence

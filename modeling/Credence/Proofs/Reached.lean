import Credence.Check.Run
import Credence.Proofs.FootingStmt

namespace Credence

open Check

namespace CheckM

variable {α : Type} {p : Session → Prop} {u : Session} {c : Context} {s : Session}

open Classical in
/-- Stops in another session if the session has a property. -/
noncomputable def stopIf (p : Session → Prop) (u : Session) : CheckM Unit := do
  if p (← get) then
    set u
    throw .exhausted

/-- A step that is interrupted if it starts or ends in a session with a property. -/
noncomputable def interrupted (p : Session → Prop) (u : Session) (x : CheckM α) : CheckM α := do
  stopIf p u
  ensuring x (stopIf p u)

theorem outcome_stopIf (h : ¬p s) : (stopIf p u).outcome c s = (.ok ⟨⟩, s) := by
  unfold stopIf
  rw [outcome_bind, outcome_get, andThen_ok, if_neg h, outcome_pure]

theorem outcome_stopIf_of (h : p s) : (stopIf p u).outcome c s = (.error .exhausted, u) := by
  unfold stopIf
  rw [outcome_bind, outcome_get, andThen_ok, if_pos h, outcome_bind, outcome_set, andThen_ok,
    outcome_throw]

theorem outcome_interrupted_of {x : CheckM α} (h : p s) :
    (interrupted p u x).outcome c s = (.error .exhausted, u) := by
  rw [interrupted, outcome_bind, outcome_stopIf_of h, andThen_error]

theorem outcome_interrupted {x : CheckM α} (hs : ¬p s) (ht : ¬p (x.outcome c s).2) :
    (interrupted p u x).outcome c s = x.outcome c s := by
  rw [interrupted, outcome_bind, outcome_stopIf hs, andThen_ok, outcome_ensuring, outcome_stopIf ht,
    andThen_ok]
  rcases x.outcome c s with ⟨_ | _, t⟩ <;> rfl

theorem leaves_interrupted {x : CheckM α} (hu : ¬p u) : ¬p ((interrupted p u x).outcome c s).2 := by
  by_cases hs : p s
  · rwa [outcome_interrupted_of hs]
  rw [interrupted, outcome_bind, outcome_stopIf hs, andThen_ok, outcome_ensuring]
  by_cases ht : p (x.outcome c s).2
  · rw [outcome_stopIf_of ht]
    rcases x.outcome c s with ⟨_ | _, t⟩ <;> exact hu
  · rw [outcome_stopIf ht]
    rcases h : x.outcome c s with ⟨_ | _, t⟩ <;> rw [h] at ht <;> exact ht

end CheckM

namespace Check

def Inner.over (inner : Inner) : Inner where
  expr e := exprOver inner e
  block body := blockOver inner body
  call id receiver args := callOver inner id receiver args

variable (p : Session → Prop) (u : Session)

noncomputable def Inner.interrupted (inner : Inner) : Inner where
  expr e := CheckM.interrupted p u (inner.expr e)
  block b := CheckM.interrupted p u (inner.block b)
  call id receiver args := CheckM.interrupted p u (inner.call id receiver args)

/-- The checks that go at most as deep as the fuel, interrupted wherever an expression, a block or a
call starts or ends in a session with a property. -/
noncomputable def interruptedUpTo : Nat → Inner
  | 0 => (innerUpTo 0).interrupted p u
  | n + 1 => (interruptedUpTo n).over.interrupted p u

end Check

namespace Discipline

open CheckM

variable {α : Type} {c : Context} {p : Session → Prop} {u s : Session}

theorem Yields.interrupted {x y : CheckM α} {Q : Session → α → Prop} (hs : s.Founded)
    (h : founded.Yields c x y s Q) (hp : ∀ t : Session, t.Founded → ¬p t) :
    founded.Yields c x (CheckM.interrupted p u y) s Q := by
  have hsame : (CheckM.interrupted p u y).outcome c s = y.outcome c s :=
    outcome_interrupted (hp s hs) (h.same ▸ hp _ h.moves.1)
  exact { h with same := h.same.trans hsame.symm }

theorem Footing.interrupted {inner other : Inner} (F : Footing c inner other)
    (hp : ∀ t : Session, t.Founded → ¬p t) : Footing c inner (other.interrupted p u) where
  context := F.context
  expr e hs := (F.expr e hs).interrupted hs hp
  block b hs := (F.block b hs).interrupted hs hp
  call hs hid hreceiver hargs := (F.call hs hid hreceiver hargs).interrupted hs hp

theorem Footing.over {inner other : Inner} (F : Footing c inner other) :
    Footing c inner.over other.over where
  context := F.context
  expr e hs := F.exprOver hs e
  block b hs := F.blockOver hs b
  call hs hid hreceiver hargs := F.callOver hs hid hreceiver hargs

theorem footing_zero (hc : c.Sound) : Footing c (innerUpTo 0) (innerUpTo 0) where
  context := hc
  expr _ hs := .throw hs trivial
  block _ hs := .throw hs trivial
  call hs _ _ _ := .throw hs trivial

theorem footing_innerUpTo (hc : c.Sound) (n : Nat) : Footing c (innerUpTo n) (innerUpTo n) := by
  induction n with
  | zero => exact footing_zero hc
  | succ n ih => exact ih.over

theorem footing_interruptedUpTo (hc : c.Sound) (hp : ∀ t : Session, t.Founded → ¬p t) (n : Nat) :
    Footing c (innerUpTo n) (interruptedUpTo p u n) := by
  induction n with
  | zero => exact (footing_zero hc).interrupted hp
  | succ n ih => exact ih.over.interrupted hp

end Discipline

/-- All that a run is given. -/
structure Job where
  module : Module
  parent : Option SymbolTable
  path : String
  settings : Settings
  hints : Hints
  modules : ModuleCache

namespace Job

variable (job : Job)

def run : Except Stop Outcome :=
  job.module.check job.parent job.path job.settings job.hints job.modules

def world : World :=
  (job.parent.map (·.world)).getD .withBuiltins

def start : ScopeId × Session :=
  Check.start job.world (job.parent.map (·.scope)) job.path job.settings.filter

def context : Context where
  settings := job.settings
  treeFile := job.module.file
  hints := job.hints
  modules := job.modules

def fuel : Nat :=
  fuelFor job.module job.world job.modules

/-- A run comes to a session: it would end otherwise if an expression, a block or a call that starts or
ends there were interrupted. -/
def Visits (t : Session) : Prop :=
  ∃ u, ((interruptedUpTo (· = t) u job.fuel).block job.module.body).outcome job.context job.start.2 ≠
    ((innerUpTo job.fuel).block job.module.body).outcome job.context job.start.2

theorem run_eq : job.run =
    match ((innerUpTo job.fuel).block job.module.body).outcome job.context job.start.2 with
    | (.ok _, final) => .ok
        { table := ⟨final.world, job.start.1, job.path⟩, events := final.events }
    | (.error stop, _) => .error stop :=
  rfl

end Job

theorem World.Sound.setAll {α : Type} {w : World} (h : w.Sound) {names : List α} (name : α → String)
    (type : α → Ty) (ht : ∀ a ∈ names, (type a).Sound fun _ => False) :
    World.Sound ⟨w.arena, names.foldl (fun s a => s.set (name a) (type a) 1.0) w.scopes⟩ ∧
      World.Contains ⟨w.arena, names.foldl (fun s a => s.set (name a) (type a) 1.0) w.scopes⟩ =
        w.Contains := by
  have hall := List.foldlRecOn names (fun s a => s.set (name a) (type a) 1.0)
    (motive := fun t : Scopes => t.Sound w.Contains ∧ t.all.size = w.scopes.all.size)
    ⟨h.scopes, rfl⟩ fun t hsound a ha => ⟨hsound.1.set (name a) (ht a ha).of_none 1.0,
      (t.steady_set (name a) (type a) 1.0).size.trans hsound.2⟩
  have hsame := contains_of_size (a := w.arena) hall.2
  refine ⟨⟨?_, ?_⟩, hsame⟩
  · rw [hsame]
    exact h.arena
  · rw [hsame]
    exact hall.1

theorem World.sound_empty : World.Sound {} where
  arena :=
    { cls := fun _ => ⟨fun _ h => absurd h List.not_mem_nil, fun _ h => absurd h List.not_mem_nil,
        Table.all_empty, fun _ h => absurd h (Option.not_mem_none _)⟩
      object := fun _ h => absurd h (Nat.not_lt_zero _)
      function := fun _ h => absurd h (Nat.not_lt_zero _)
      module := fun _ => Table.all_empty }
  scopes := by
    have hscope (id : ScopeId) : ∃ name, Scopes.scopeAt {} id = { name } := by
      rcases id with ⟨_ | n⟩
      · exact ⟨_, rfl⟩
      · rw [Scopes.scopeAt, getD_of_not_lt (by simp)]
        exact ⟨_, rfl⟩
    have hglobal : World.Contains {} (.scope Scopes.global) := Nat.one_pos
    refine ⟨fun id => ?_, fun id => ?_, hglobal, fun _ h => absurd h List.not_mem_nil,
      fun _ h => absurd h (Option.not_mem_none _), hglobal⟩
    · obtain ⟨name, h⟩ := hscope id
      rw [h]
      exact ⟨Table.all_empty, fun _ h => absurd h (Option.not_mem_none _), Table.all_empty⟩
    · obtain ⟨name, h⟩ := hscope id
      exact .root (by rw [h])

theorem World.sound_withBuiltins : withBuiltins.Sound :=
  (sound_empty.setAll Prod.fst Prod.snd fun _ => Ty.Sound.stable.bindings).1

theorem Check.founded_startHere (world : World) (path : String) (filter : Filter)
    (hworld : world.Sound) :
    (start world none path filter).2.Founded ∧
      (start world none path filter).2.Has (.scope (start world none path filter).1) := by
  have hempty (key : String × Nat) : ({} : Std.TreeMap (String × Nat) (Ty × Stamp) Memo.order)[key]? = none :=
    Std.TreeMap.getElem?_emptyc
  let s : Session :=
    { arena := world.arena, scopes := world.scopes, hub := { cursor := { file := path }, filter } }
  have hs : s.Founded :=
    { arena := hworld.arena
      scopes := hworld.scopes
      frames := fun _ h => absurd h List.not_mem_nil
      classScopes := fun _ h => absurd h List.not_mem_nil
      standIns := fun _ h => absurd h List.not_mem_nil
      memo := fun key _ h => absurd ((hempty key).symm.trans h) (Option.some_ne_none _).symm }
  obtain ⟨henter, hnew⟩ := hs.enter (moduleName path)
  have hmodule : World.Sound
      ⟨world.arena, (world.scopes.enter (moduleName path)).2.setModule ⟨world.scopes.all.size⟩⟩ :=
    ⟨henter.1.arena, henter.1.scopes.setModule hnew⟩
  have hstr : ∀ name ∈ ["__name__", "__file__", "__doc__"], Ty.str.Sound fun _ => False :=
    fun _ _ => .prim _
  obtain ⟨hbound, hsame⟩ := hmodule.setAll id (fun _ => .str) hstr
  refine ⟨(Session.Founded.of_world henter.1 (fun e he => ?_) hbound.arena hbound.scopes).1, ?_⟩
  · exact (iff_of_eq (congrFun hsame e)).2 he
  · exact (iff_of_eq (congrFun hsame (.scope ⟨world.scopes.all.size⟩))).2 hnew

theorem Check.founded_start {world : World} {parent : Option ScopeId} (path : String)
    (filter : Filter) (hworld : world.Sound) (hparent : ∀ id ∈ parent, world.Contains (.scope id)) :
    (start world parent path filter).2.Founded ∧
      (start world parent path filter).2.Has (.scope (start world parent path filter).1) := by
  cases parent with
  | none => exact founded_startHere world path filter hworld
  | some scope =>
    exact founded_startHere ⟨world.arena, world.scopes.goTo scope⟩ path filter
      ⟨hworld.arena, hworld.scopes.goTo (hparent scope rfl)⟩

namespace Job

variable {job : Job}

structure Sound (job : Job) : Prop where
  parent : ∀ table ∈ job.parent, table.Sound
  context : job.context.Sound

theorem Sound.start (h : job.Sound) :
    job.start.2.Founded ∧ job.start.2.Has (.scope job.start.1) := by
  unfold Job.start Job.world
  cases hparent : job.parent with
  | none => exact founded_start _ _ World.sound_withBuiltins fun _ h => absurd h (Option.not_mem_none _)
  | some table =>
    have htable := h.parent table hparent
    exact founded_start _ _ htable.world fun _ h => Option.mem_some.1 h ▸ htable.scope

theorem Sound.founded_of_visits (h : job.Sound) {t : Session} (ht : job.Visits t) : t.Founded := by
  by_contra hn
  obtain ⟨u, hne⟩ := ht
  have hp (v : Session) (hv : v.Founded) : v ≠ t := fun heq => hn (heq ▸ hv)
  exact hne ((Discipline.footing_interruptedUpTo h.context hp job.fuel).block _ h.start.1).same.symm

theorem Sound.table (h : job.Sound) {outcome : Outcome} (hrun : job.run = .ok outcome) :
    outcome.table.Sound := by
  have hblock := (Discipline.footing_innerUpTo h.context job.fuel).block job.module.body h.start.1
  have hmoves := hblock.moves
  rw [run_eq] at hrun
  split at hrun
  · rename_i final hfinal
    rw [hfinal] at hmoves
    cases hrun
    exact ⟨⟨hmoves.1.arena, hmoves.1.scopes⟩, hmoves.grows _ h.start.2⟩
  · cases hrun

end Job

/-- The table of a run that was given only tables of such runs, and hints that name no entries. No
builtin callable that the modules to be imported lead to has a signature that names entries. -/
inductive SymbolTable.Produced : SymbolTable → Prop
  | run {job : Job} {outcome : Outcome} (parent : ∀ table ∈ job.parent, Produced table)
    (modules : ∀ entry ∈ job.modules.entries, Produced entry.2)
    (plain : ∀ table, job.modules.Offers table → table.Plain)
    (hints : ∀ span found, job.hints.get? span = some found → found.1.Sound fun _ => False)
    (h : job.run = .ok outcome) : Produced outcome.table

/-- A run that is given only tables of such runs, and hints that name no entries. No builtin callable
that the modules to be imported lead to has a signature that names entries. -/
structure Job.Proper (job : Job) : Prop where
  parent : ∀ table ∈ job.parent, table.Produced
  modules : ∀ entry ∈ job.modules.entries, entry.2.Produced
  plain : ∀ table, job.modules.Offers table → table.Plain
  hints : ∀ span found, job.hints.get? span = some found → found.1.Sound fun _ => False

theorem SymbolTable.Produced.sound {table : SymbolTable} (h : table.Produced) : table.Sound := by
  induction h with
  | run _ _ plain hints h parent modules =>
    refine Job.Sound.table ⟨parent, hints, fun table hoffers => ?_⟩ h
    obtain ⟨path, hmem⟩ := hoffers.mem
    exact ⟨modules _ hmem, plain table hoffers⟩

namespace Job

variable {job : Job}

theorem Proper.sound (h : job.Proper) : job.Sound where
  parent table htable := (h.parent table htable).sound
  context :=
    { hints := h.hints
      modules := fun table hoffers =>
        have ⟨_, hmem⟩ := hoffers.mem
        ⟨(h.modules _ hmem).sound, h.plain table hoffers⟩ }

theorem Proper.produced (h : job.Proper) {outcome : Outcome} (hrun : job.run = .ok outcome) :
    outcome.table.Produced :=
  .run h.parent h.modules h.plain h.hints hrun

theorem visits_start (job : Job) : job.Visits job.start.2 := by
  let final := (((innerUpTo job.fuel).block job.module.body).outcome job.context job.start.2).2
  refine ⟨{ final with events := final.events ++ [.warning ""] }, fun hsame => ?_⟩
  have hstop : ((interruptedUpTo (· = job.start.2)
      { final with events := final.events ++ [.warning ""] } job.fuel).block job.module.body).outcome
        job.context job.start.2 =
          (.error .exhausted, { final with events := final.events ++ [.warning ""] }) := by
    cases job.fuel <;> exact CheckM.outcome_interrupted_of rfl
  have hevents := congrArg (fun o => o.2.events.length) (hstop.symm.trans hsame)
  simp [final] at hevents

def final (job : Job) : Session :=
  (((innerUpTo job.fuel).block job.module.body).outcome job.context job.start.2).2

theorem visits_final (job : Job) : job.Visits job.final := by
  let u : Session := { job.final with events := job.final.events ++ [.warning ""] }
  have hu : ¬u = job.final := fun h => by
    have hevents := congrArg (·.events.length) h
    simp [u] at hevents
  refine ⟨u, fun hsame => ?_⟩
  have hleaves : ¬(((interruptedUpTo (· = job.final) u job.fuel).block job.module.body).outcome
      job.context job.start.2).2 = job.final := by
    cases job.fuel <;> exact CheckM.leaves_interrupted (p := (· = job.final)) hu
  exact hleaves (congrArg Prod.snd hsame)

/-- Whatever a run comes to is well-formed: all that is stored is in range of where it leads, the bases
of a class are older than it, and the scopes around a scope come to an end; and each statement that is
checked keeps it so. -/
theorem Proper.well_formed (h : job.Proper) :
    (∀ t, job.Visits t → t.Founded ∧ ∀ id : ScopeId, t.Has (.scope id) →
      ∃ inner outermost, t.scopes.chain id = inner ++ [outermost] ∧
        (t.scopes.scopeAt outermost).parent = none) ∧
    ∀ (n : Nat) (stmt : Stmt) (s : Session), s.Founded →
      ((checkStmt (innerUpTo n) stmt).outcome job.context s).2.Founded := by
  refine ⟨fun t ht => ?_, fun n stmt s hs => ?_⟩
  · have hfounded := h.sound.founded_of_visits ht
    exact ⟨hfounded, fun id hid => hfounded.scopes.chain_ends (fun _ h => h) hid⟩
  · exact ((Discipline.footing_innerUpTo h.sound.context n).checkStmt hs stmt).moves.1

def empty : Job where
  module := { body := [], file := "", span := default }
  parent := none
  path := ""
  settings := {}
  hints := {}
  modules := {}

theorem proper_empty : empty.Proper where
  parent _ h := absurd h (Option.not_mem_none _)
  modules _ h := absurd h List.not_mem_nil
  plain _ h := absurd h.mem.choose_spec List.not_mem_nil
  hints _ _ h := absurd h nofun

/-- A run on a class and one below it, on an object that has itself as an attribute, and on a function that
calls another one, which calls a method of the object. -/
def relay : Job :=
  let name (id : Nat) (x : String) : Expr := ⟨id, .name x, default⟩
  let call (id : Nat) (func : Expr) (args : List Expr) : Expr := ⟨id, .call func args [], default⟩
  let member (id : Nat) (value : Expr) (attr : String) : Expr := ⟨id, .member value attr, default⟩
  let returns (id : Nat) (value : Expr) : List Stmt := [⟨id, .ret (some value), default⟩]
  let assign (id : Nat) (target value : Expr) : Stmt := ⟨id, .assign [target] value, default⟩
  let function (id : Nat) (name param : String) (body : List Stmt) : Stmt :=
    ⟨id, .functionDef
      { name, params := { args := [⟨param, none, default⟩] }, body, returns := none, decorators := []
        isAsync := false, span := default }, default⟩
  { empty with
    module :=
      { body := [
          ⟨0, .classDef ⟨"A", [], [], [function 1 "m" "self" (returns 2 (name 3 "self"))], [], default⟩,
            default⟩,
          ⟨4, .classDef ⟨"B", [name 5 "A"], [], [⟨6, .pass, default⟩], [], default⟩, default⟩,
          assign 7 (name 8 "c") (call 9 (name 10 "B") []),
          assign 11 (member 12 (name 13 "c") "me") (name 14 "c"),
          function 15 "g" "n" (returns 16 (call 17 (member 18 (name 19 "c") "m") [])),
          function 20 "f" "n" (returns 21 (call 22 (name 23 "g") [name 24 "n"])),
          assign 25 (name 26 "x") (call 27 (name 28 "f") [⟨29, .number (.int 1), default⟩])]
        file := "", span := default } }

theorem proper_relay : relay.Proper :=
  { proper_empty with }

/-- The run has made both classes, objects and all functions, which have been called. -/
theorem well_formed_relay :
    relay.Visits relay.final ∧ relay.final.Founded ∧
      relay.final.arena.classes.size = 2 ∧ (relay.final.arena.classAt ⟨1⟩).bases = [⟨0⟩] ∧
      relay.final.arena.objects.size = 2 ∧ relay.final.arena.functions.size = 3 ∧
      relay.final.arena.functions.all (fun f => !f.calls.isEmpty) = true ∧
      ∀ n stmt, ((checkStmt (innerUpTo n) stmt).outcome relay.context relay.final).2.Founded := by
  have hmade : decide (relay.final.arena.classes.size = 2 ∧
      (relay.final.arena.classAt ⟨1⟩).bases = [⟨0⟩] ∧ relay.final.arena.objects.size = 2 ∧
      relay.final.arena.functions.size = 3 ∧
      relay.final.arena.functions.all (fun f => !f.calls.isEmpty) = true) = true := by
    decide +kernel
  obtain ⟨hclasses, hbases, hobjects, hfunctions, hcalls⟩ := of_decide_eq_true hmade
  have hfounded : relay.final.Founded := (proper_relay.well_formed.1 _ relay.visits_final).1
  refine ⟨relay.visits_final, hfounded, hclasses, hbases, hobjects, hfunctions, hcalls, fun n stmt => ?_⟩
  exact proper_relay.well_formed.2 n stmt relay.final hfounded

end Job

/-- A builtin callable that names an object is taken over as it is: in the world that takes it in, there
may be no such object. -/
theorem Adoption.not_sound_signature_with_object :
    let w : World :=
      { arena := { classes := #[{ name := some "C" }], objects := #[{ cls := ⟨0⟩ }] } }
    ∃ pop, (Container.ofElts .list [.object ⟨0⟩]).member? "pop" = some pop ∧ pop.Sound w.Contains ∧
      ∀ t b, (adopt (copier w) pop).run { arena := {}, scopes := {} } = .ok (t, b) →
        ¬t.Sound b.target.Contains := by
  refine ⟨.builtin ⟨"pop", [.any], .object ⟨0⟩⟩, rfl, .builtin ?_ (.object Nat.one_pos), ?_⟩
  · intro t ht
    rw [List.mem_singleton.1 ht]
    exact .any
  · intro t b hrun hsound
    rw [adopt.eq_def] at hrun
    cases hrun
    cases hsound with
    | builtin _ hret => cases hret with | object h => exact Nat.not_lt_zero _ h

end Credence

import Credence.Check.Call
import Credence.Proofs.Rooted
import Credence.Proofs.Yield

namespace Credence

open CheckM

namespace World

/-- All that a world holds is in it. -/
structure Sound (w : World) : Prop where
  arena : w.arena.Sound w.Contains
  scopes : w.scopes.Sound w.Contains

variable {a b : Arena} {scopes other : Scopes}

theorem contains_of_stays {has : Entry → Prop} (h : a.Stays has b) :
    Contains ⟨b, scopes⟩ = Contains ⟨a, scopes⟩ := by
  funext e
  cases e with
  | cls id => exact congrArg (id.val < ·) h.classes
  | object id => exact congrArg (id.val < ·) h.objects
  | function id => exact congrArg (id.val < ·) h.functions
  | module id => exact congrArg (id.val < ·) h.modules
  | scope id => rfl

theorem contains_of_size (h : other.all.size = scopes.all.size) :
    Contains ⟨a, other⟩ = Contains ⟨a, scopes⟩ := by
  funext e
  cases e with
  | scope id => exact congrArg (id.val < ·) h
  | _ => rfl

theorem contains_addClass {info : ClassInfo} (e : Entry) :
    Contains ⟨(a.addClass info).2, scopes⟩ e ↔
      Contains ⟨a, scopes⟩ e ∨ e = .cls ⟨a.classes.size⟩ := by
  rcases e with ⟨⟨e⟩⟩ | ⟨⟨e⟩⟩ | ⟨⟨e⟩⟩ | ⟨⟨e⟩⟩ | ⟨⟨e⟩⟩ <;>
    simp only [Contains, Arena.addClass, Array.size_push, Nat.lt_succ_iff_lt_or_eq, Entry.cls.injEq,
      ClassId.mk.injEq, reduceCtorEq, or_false]

theorem contains_addObject {cls : ClassId} (e : Entry) :
    Contains ⟨(a.addObject cls).2, scopes⟩ e ↔
      Contains ⟨a, scopes⟩ e ∨ e = .object ⟨a.objects.size⟩ :=
  (Adoption.opens_object ⟨a, scopes, [], [], [], [], []⟩ default cls).contains

theorem contains_addFunction {info : FunctionInfo} (e : Entry) :
    Contains ⟨(a.addFunction info).2, scopes⟩ e ↔
      Contains ⟨a, scopes⟩ e ∨ e = .function ⟨a.functions.size⟩ :=
  (Adoption.opens_function ⟨a, scopes, [], [], [], [], []⟩ default info).contains

theorem contains_addModule {info : ModuleInfo} (e : Entry) :
    Contains ⟨(a.addModule info).2, scopes⟩ e ↔
      Contains ⟨a, scopes⟩ e ∨ e = .module ⟨a.modules.size⟩ :=
  (Adoption.opens_module ⟨a, scopes, [], [], [], [], []⟩ default info).contains

theorem contains_push {scope : Scope} (h : other.all = scopes.all.push scope) (e : Entry) :
    Contains ⟨a, other⟩ e ↔ Contains ⟨a, scopes⟩ e ∨ e = .scope ⟨scopes.all.size⟩ := by
  have hsize : other.all.size = (scopes.touch.alloc scope).2.all.size := congrArg Array.size h
  rw [contains_of_size hsize]
  exact (Adoption.opens_scope ⟨a, scopes, [], [], [], [], []⟩ default scope).contains

end World

section Parts

variable (has : Entry → Prop)

structure Frame.Sound (f : Frame) : Prop where
  function : has (.function f.function)
  returns : ∀ t ∈ f.returns, t.Sound has
  yields : ∀ t ∈ f.yields, t.Sound has

structure Session.Sound (s : Session) : Prop where
  arena : s.arena.Sound has
  scopes : s.scopes.Sound has
  frames : ∀ f ∈ s.frames, f.Sound has
  classScopes : ∀ entry ∈ s.classScopes, has (.scope entry.1) ∧ has (.cls entry.2)
  standIns : ∀ entry ∈ s.standIns, has (.cls entry.1) ∧ has (.object entry.2)
  memo : ∀ (key : String × Nat) (kept : Ty × Stamp), s.memo.entries[key]? = some kept →
    kept.1.Sound has ∧ has (.scope kept.2.scope)

structure CallArgs.Sound (args : CallArgs) : Prop where
  positional : ∀ t ∈ args.positional, t.Sound has
  keywords : ∀ keyword ∈ args.keywords, keyword.2.Sound has

end Parts

section Mono

variable {has more : Entry → Prop} (hmono : ∀ e, has e → more e)
include hmono

theorem Frame.Sound.mono {f : Frame} (h : f.Sound has) : f.Sound more where
  function := hmono _ h.function
  returns t ht := (h.returns t ht).mono hmono
  yields t ht := (h.yields t ht).mono hmono

theorem CallArgs.Sound.mono {args : CallArgs} (h : args.Sound has) : args.Sound more where
  positional t ht := (h.positional t ht).mono hmono
  keywords keyword hk := (h.keywords keyword hk).mono hmono

theorem Session.Sound.mono {s : Session} {a : Arena} {scopes : Scopes} (h : s.Sound has)
    (ha : a.Sound more) (hscopes : scopes.Sound more) :
    Session.Sound more { s with arena := a, scopes } where
  arena := ha
  scopes := hscopes
  frames f hf := (h.frames f hf).mono hmono
  classScopes entry hentry :=
    ⟨hmono _ (h.classScopes entry hentry).1, hmono _ (h.classScopes entry hentry).2⟩
  standIns entry hentry :=
    ⟨hmono _ (h.standIns entry hentry).1, hmono _ (h.standIns entry hentry).2⟩
  memo key kept hkept := ⟨(h.memo key kept hkept).1.mono hmono, hmono _ (h.memo key kept hkept).2⟩

end Mono

namespace Session

def world (s : Session) : World :=
  ⟨s.arena, s.scopes⟩

abbrev Has (s : Session) : Entry → Prop :=
  s.world.Contains

/-- A type that names only entries of the session. -/
abbrev Backs (s : Session) (t : Ty) : Prop :=
  t.Sound s.Has

/-- All that a session holds is in it. -/
def Founded (s : Session) : Prop :=
  s.Sound s.Has

/-- The session has all entries of another. -/
def Grows (s t : Session) : Prop :=
  ∀ e, s.Has e → t.Has e

theorem Founded.range {s : Session} {id : ScopeId} (h : s.Has (.scope id)) :
    id.val < s.scopes.all.size :=
  h

end Session

/-- The discipline of sessions that hold only what is in them. -/
def Discipline.founded : Discipline where
  inv := Session.Founded
  le := Session.Grows
  stop _ := True
  le_refl _ _ h := h
  le_trans h k e he := k e (h e he)

namespace Session

open Discipline

variable {s t : Session} {a : Arena}

theorem moves_of_has (h : t.Has = s.Has) (ht : t.Sound s.Has) : founded.Moves s t := by
  refine ⟨?_, fun e he => ?_⟩
  · change t.Sound t.Has
    rw [h]
    exact ht
  · rw [h]
    exact he

theorem Founded.of_arena (h : s.Founded) (ha : s.arena.Stays s.Has a) :
    founded.Moves s { s with arena := a } :=
  moves_of_has (World.contains_of_stays ha) { h with arena := ha.sound }

theorem Founded.of_scopes (h : s.Founded) {scopes : Scopes} (hscopes : scopes.Sound s.Has)
    (hsteady : s.scopes.Steady scopes) : founded.Moves s { s with scopes } :=
  moves_of_has (World.contains_of_size hsteady.size) { h with scopes := hscopes }

theorem Founded.of_world (h : s.Founded) {scopes : Scopes}
    (hmono : ∀ e, s.Has e → World.Contains ⟨a, scopes⟩ e)
    (ha : a.Sound (World.Contains ⟨a, scopes⟩)) (hscopes : scopes.Sound (World.Contains ⟨a, scopes⟩)) :
    founded.Moves s { s with arena := a, scopes } :=
  ⟨Session.Sound.mono hmono h ha hscopes, hmono⟩

theorem Founded.addClass (h : s.Founded) {info : ClassInfo}
    (hinfo : info.Sound s.Has ⟨s.arena.classes.size⟩) :
    founded.Moves s { s with arena := (s.arena.addClass info).2 } ∧
      Has { s with arena := (s.arena.addClass info).2 } (.cls ⟨s.arena.classes.size⟩) := by
  have hmono (e : Entry) (he : s.Has e) : World.Contains ⟨(s.arena.addClass info).2, s.scopes⟩ e :=
    (World.contains_addClass e).2 (.inl he)
  refine ⟨h.of_world hmono ?_ (h.scopes.mono hmono), (World.contains_addClass _).2 (.inr rfl)⟩
  exact h.arena.addClass hmono hinfo fun e => (World.contains_addClass e).1

theorem Founded.addObject (h : s.Founded) {cls : ClassId} (hcls : s.Has (.cls cls)) :
    founded.Moves s { s with arena := (s.arena.addObject cls).2 } ∧
      Has { s with arena := (s.arena.addObject cls).2 } (.object ⟨s.arena.objects.size⟩) := by
  have hmono (e : Entry) (he : s.Has e) : World.Contains ⟨(s.arena.addObject cls).2, s.scopes⟩ e :=
    (World.contains_addObject e).2 (.inl he)
  refine ⟨h.of_world hmono ?_ (h.scopes.mono hmono), (World.contains_addObject _).2 (.inr rfl)⟩
  exact h.arena.addObject hmono hcls fun e => (World.contains_addObject e).1

theorem Founded.addFunction (h : s.Founded) {info : FunctionInfo} (hinfo : info.Sound s.Has) :
    founded.Moves s { s with arena := (s.arena.addFunction info).2 } ∧
      Has { s with arena := (s.arena.addFunction info).2 } (.function ⟨s.arena.functions.size⟩) := by
  have hmono (e : Entry) (he : s.Has e) : World.Contains ⟨(s.arena.addFunction info).2, s.scopes⟩ e :=
    (World.contains_addFunction e).2 (.inl he)
  refine ⟨h.of_world hmono ?_ (h.scopes.mono hmono), (World.contains_addFunction _).2 (.inr rfl)⟩
  exact h.arena.addFunction hmono hinfo fun e => (World.contains_addFunction e).1

theorem Founded.addModule (h : s.Founded) {info : ModuleInfo} (hinfo : info.Sound s.Has) :
    founded.Moves s { s with arena := (s.arena.addModule info).2 } ∧
      Has { s with arena := (s.arena.addModule info).2 } (.module ⟨s.arena.modules.size⟩) := by
  have hmono (e : Entry) (he : s.Has e) : World.Contains ⟨(s.arena.addModule info).2, s.scopes⟩ e :=
    (World.contains_addModule e).2 (.inl he)
  refine ⟨h.of_world hmono ?_ (h.scopes.mono hmono), (World.contains_addModule _).2 (.inr rfl)⟩
  exact h.arena.addModule hmono hinfo fun e => (World.contains_addModule e).1

theorem Founded.of_push (h : s.Founded) {scopes : Scopes} {scope : Scope}
    (hall : scopes.all = s.scopes.all.push scope)
    (hscopes : ∀ more, (∀ e, s.Has e → more e) → more (.scope ⟨s.scopes.all.size⟩) →
      scopes.Sound more) :
    founded.Moves s { s with scopes } ∧ Has { s with scopes } (.scope ⟨s.scopes.all.size⟩) := by
  have hmono (e : Entry) (he : s.Has e) : World.Contains ⟨s.arena, scopes⟩ e :=
    (World.contains_push hall e).2 (.inl he)
  have hnew := (World.contains_push (a := s.arena) hall _).2 (.inr rfl)
  refine ⟨h.of_world hmono ?_ (hscopes _ hmono hnew), hnew⟩
  refine h.arena.mono hmono (fun id hid => ?_) fun id hid => ?_
  · exact ((World.contains_push hall _).1 hid).resolve_right nofun
  · exact ((World.contains_push hall _).1 hid).resolve_right nofun

theorem Founded.enter (h : s.Founded) (name : String) :
    founded.Moves s { s with scopes := (s.scopes.enter name).2 } ∧
      Has { s with scopes := (s.scopes.enter name).2 } (.scope ⟨s.scopes.all.size⟩) :=
  h.of_push rfl fun _ hmono hnew => h.scopes.enter (fun _ h => h) hmono hnew name

theorem Founded.enterFunction (h : s.Founded) (name : String) (captured : ScopeId)
    {params : List (String × Ty)} (hparams : ∀ param ∈ params, s.Backs param.2) :
    founded.Moves s { s with scopes := (s.scopes.enterFunction name captured params).2 } := by
  refine (h.of_push rfl fun _ hmono hnew => ?_).1
  exact h.scopes.enterFunction (fun _ h => h) hmono hnew name captured hparams

end Session

namespace Discipline

open Session

variable {α : Type} {c : Context} {s t : Session}

theorem Moves.grows (h : founded.Moves s t) : ∀ e, s.Has e → t.Has e :=
  h.2

theorem Moves.backs (h : founded.Moves s t) {type : Ty} (ht : s.Backs type) : t.Backs type :=
  ht.mono h.grows

theorem Moves.option (h : founded.Moves s t) {o : Option Ty} (ho : ∀ type ∈ o, s.Backs type) :
    ∀ type ∈ o, t.Backs type :=
  fun type htype => h.backs (ho type htype)

theorem lasting_backs : Yields.Lasting founded Session.Backs :=
  fun _ _ hst _ h => hst.backs h

namespace Founded

section Steps

variable (hs : s.Founded)
include hs

omit hs in
theorem of_has {f : Session → Session} (hhas : (f s).Has = s.Has) (h : (f s).Sound s.Has) :
    founded.Yields c (modify f : CheckM PUnit) (modify f) s fun _ _ => True :=
  .modify (moves_of_has hhas h) trivial

theorem getArena : founded.Yields c CheckM.getArena CheckM.getArena s fun t a => t = s ∧ a = s.arena :=
  .of_ok (t := s) (a := s.arena) rfl (.refl hs) ⟨rfl, rfl⟩

theorem getScopes :
    founded.Yields c CheckM.getScopes CheckM.getScopes s fun t scopes => t = s ∧ scopes = s.scopes :=
  .of_ok (t := s) (a := s.scopes) rfl (.refl hs) ⟨rfl, rfl⟩

theorem modifyHub (f : Hub → Hub) :
    founded.Yields c (CheckM.modifyHub f) (CheckM.modifyHub f) s fun _ _ => True :=
  of_has rfl { hs with }

theorem report (finding : Finding) :
    founded.Yields c (CheckM.report finding) (CheckM.report finding) s fun _ _ => True :=
  modifyHub hs _

theorem reportAll (findings : List Finding) :
    founded.Yields c (CheckM.reportAll findings) (CheckM.reportAll findings) s fun _ _ => True :=
  modifyHub hs _

theorem warn (text : String) :
    founded.Yields c (CheckM.warn text) (CheckM.warn text) s fun _ _ => True :=
  of_has rfl { hs with }

theorem flush : founded.Yields c CheckM.flush CheckM.flush s fun _ _ => True :=
  of_has rfl { hs with }

theorem fail {Q : Session → α → Prop} (cause : Cause) (position : Position) :
    founded.Yields c (CheckM.fail cause position : CheckM α) (CheckM.fail cause position) s Q :=
  .throw hs trivial

theorem display (type : Ty) :
    founded.Yields c (CheckM.display type) (CheckM.display type) s fun _ _ => True :=
  .of_ok (t := s) rfl (.refl hs) trivial

theorem hint? (e : Expr) :
    founded.Yields c (CheckM.hint? e) (CheckM.hint? e) s
      fun _ hint => ∀ found ∈ hint, c.hints.get? e.span = some found := by
  refine .of_ok (t := s) rfl (.refl hs) fun found hfound => ?_
  split at hfound
  · exact hfound
  · exact absurd hfound (Option.not_mem_none _)

theorem confidenceOf (e : Expr) :
    founded.Yields c (CheckM.confidenceOf e) (CheckM.confidenceOf e) s fun _ _ => True := by
  refine (hint? hs e).bind fun hint t hst _ => ?_
  cases hint with
  | none => exact .read_bind (.pure hst.1 trivial)
  | some found => exact .pure hst.1 trivial

theorem defaultProbability :
    founded.Yields c CheckM.defaultProbability CheckM.defaultProbability s fun _ _ => True :=
  .of_ok (t := s) rfl (.refl hs) trivial

theorem withArena {f : Arena → α × Arena} {Q : α → Prop} (hf : s.arena.Stays s.Has (f s.arena).2)
    (hQ : Q (f s.arena).1) :
    founded.Yields c (CheckM.withArena f) (CheckM.withArena f) s fun _ r => Q r :=
  .modifyGet (hs.of_arena hf) hQ

theorem modifyArena {f : Arena → Arena} (hf : s.arena.Stays s.Has (f s.arena)) :
    founded.Yields c (CheckM.modifyArena f) (CheckM.modifyArena f) s fun _ _ => True :=
  .modify (hs.of_arena hf) trivial

theorem modifyScopes {f : Scopes → Scopes} (hf : (f s.scopes).Sound s.Has)
    (hsteady : s.scopes.Steady (f s.scopes)) :
    founded.Yields c (CheckM.modifyScopes f) (CheckM.modifyScopes f) s fun _ _ => True :=
  .modify (hs.of_scopes hf hsteady) trivial

theorem setName (name : String) {type : Ty} (htype : s.Backs type) (confidence : Float) :
    founded.Yields c (CheckM.modifyScopes (·.set name type confidence))
      (CheckM.modifyScopes (·.set name type confidence)) s fun _ _ => True :=
  modifyScopes hs (hs.scopes.set name htype confidence) (s.scopes.steady_set name type confidence)

theorem bindName (name : String) {value : Ty} (hvalue : s.Backs value) (confidence : Float) :
    founded.Yields c (CheckM.bindName name value confidence)
      (CheckM.bindName name value confidence) s fun _ _ => True := by
  refine .get_bind (.get_bind (.bind (Q := fun _ _ => True) (.modify ?_ trivial) ?_))
  · exact hs.of_scopes (hs.scopes.add name hvalue confidence)
      (s.scopes.steady_add s.arena name value confidence)
  · exact fun _ t hst _ => reportAll hst.1 _

theorem readAttribute {type : Ty} (htype : s.Backs type) (name : String) (confidence : Float) :
    founded.Yields c (CheckM.readAttribute type name confidence)
      (CheckM.readAttribute type name confidence) s Session.Backs := by
  have hread := hs.arena.readAttribute htype name confidence
  refine .get_bind (.bind (Q := fun t _ => t.Backs (s.arena.readAttribute type name confidence).type)
    (.modify (hs.of_arena hread.stays) ?_) fun _ t hst hresult => ?_)
  · exact (hs.of_arena hread.stays).backs hread.type
  · exact (reportAll hst.1 _).bind fun _ u htu _ => .pure htu.1 (htu.backs hresult)

theorem classLookup (id : ClassId) (name : String) :
    founded.Yields c (CheckM.withArena (·.classLookup id name))
      (CheckM.withArena (·.classLookup id name)) s
      fun t slot? => ∀ slot ∈ slot?, t.Backs slot.type := by
  have hlookup := hs.arena.classLookup id name
  have hmoves := hs.of_arena hlookup.2
  exact .modifyGet hmoves fun slot hslot => hmoves.backs (hlookup.1 slot hslot)

theorem addObject {cls : ClassId} (hcls : s.Has (.cls cls)) :
    founded.Yields c (CheckM.withArena (·.addObject cls)) (CheckM.withArena (·.addObject cls)) s
      fun t id => t.Has (.object id) :=
  .modifyGet (hs.addObject hcls).1 (hs.addObject hcls).2

theorem addModule {info : ModuleInfo} (hinfo : info.Sound s.Has) :
    founded.Yields c (CheckM.withArena (·.addModule info)) (CheckM.withArena (·.addModule info)) s
      fun t id => t.Has (.module id) :=
  .modifyGet (hs.addModule hinfo).1 (hs.addModule hinfo).2

theorem addFunction {info : FunctionInfo} (hinfo : info.Sound s.Has) :
    founded.Yields c (CheckM.withArena (·.addFunction info)) (CheckM.withArena (·.addFunction info))
      s fun t id => t.Has (.function id) :=
  .modifyGet (hs.addFunction hinfo).1 (hs.addFunction hinfo).2

theorem addClass {info : ClassInfo} (hinfo : info.Sound s.Has ⟨s.arena.classes.size⟩) :
    founded.Yields c (CheckM.withArena (·.addClass info)) (CheckM.withArena (·.addClass info))
      s fun t id => t.Has (.cls id) :=
  .modifyGet (hs.addClass hinfo).1 (hs.addClass hinfo).2

theorem standIn {id : ClassId} (hid : s.Has (.cls id)) :
    founded.Yields c (CheckM.standIn id) (CheckM.standIn id) s Session.Backs := by
  unfold CheckM.standIn
  refine .get_bind ?_
  split
  · rename_i object hobject
    exact .pure hs (.object (hs.standIns _ (mem_of_lookup hobject)).2)
  · refine (addObject hs hid).bind fun object t hst hobject => ?_
    refine Yields.bind (Q := fun _ _ => True)
      (.modify (moves_of_has rfl { hst.1 with standIns := ?_ }) trivial) fun _ u htu _ => ?_
    · exact List.forall_mem_cons.2 ⟨⟨hst.grows _ hid, hobject⟩, hst.1.standIns⟩
    · exact .pure htu.1 (.object (htu.grows _ hobject))

end Steps

theorem inScope {name : String} {x y : CheckM α} {Q : Session → α → Prop} (hs : s.Founded)
    (hQ : Yields.Lasting founded Q)
    (h : ∀ t, founded.Moves s t → founded.Yields c x y t Q) :
    founded.Yields c (CheckM.inScope name x) (CheckM.inScope name y) s Q := by
  have henter := (hs.enter name).1
  refine Yields.bind (Q := fun _ _ => True) (.modifyGet henter trivial) fun _ t hst _ => ?_
  have hexit (u : Session) (hu : u.Founded) : founded.Moves u { u with scopes := u.scopes.exit } :=
    moves_of_has (World.contains_of_size u.scopes.size_exit) { hu with scopes := hu.scopes.exit }
  refine (h t hst).ensuring (fun u htu => htu.trans (hexit u htu.1)) fun a u htu ha => ?_
  exact hQ (hexit u htu.1) ha

end Founded

end Discipline

end Credence

import Credence.Proofs.Adoption
import Credence.Proofs.Balance
import Credence.Proofs.Settled
import Credence.Proofs.Yield

namespace Credence

open CheckM

namespace Adoption

variable {α β : Type}

structure Settled (a : Adoption) : Prop where
  arena : a.arena.Settled
  scopes : a.scopes.Settled

/-- A step goes from settled worlds to such worlds, and its result has a property. -/
def Settles (x : AdoptM α) (Q : α → Prop) : Prop :=
  ∀ a : Adoption, a.Settled → Gives False x a fun r b => b.Settled ∧ Q r

namespace Settles

variable {Q : α → Prop} {R : β → Prop}

protected theorem pure {r : α} (h : Q r) : Settles (pure r) Q :=
  fun _ ha => .pure ⟨ha, h⟩

protected theorem bind {x : AdoptM α} {f : α → AdoptM β} (hx : Settles x Q)
    (hf : ∀ r, Q r → Settles (f r) R) : Settles (x >>= f) R :=
  fun a ha => (hx a ha).bind fun r b h => hf r h.2 b h.1

protected theorem get_bind {f : Adoption → AdoptM β} (h : ∀ a, Settles (f a) R) :
    Settles (get >>= f) R :=
  fun a ha => h a a ha

theorem modify_bind {f : Adoption → Adoption} {g : PUnit → AdoptM β}
    (hf : ∀ a : Adoption, a.Settled → (f a).Settled) (hg : Settles (g ⟨⟩) R) :
    Settles (modify f >>= g) R :=
  fun a ha => hg (f a) (hf a ha)

theorem modifyGet_bind {f : Adoption → α × Adoption} {g : α → AdoptM β}
    (hf : ∀ a : Adoption, a.Settled → (f a).2.Settled) (hg : ∀ r, Settles (g r) R) :
    Settles (modifyGet f >>= g) R :=
  fun a ha => hg (f a).1 (f a).2 (hf a ha)

protected theorem mapM {xs : List α} {f : α → AdoptM β} (h : ∀ x ∈ xs, Settles (f x) R) :
    Settles (xs.mapM f) fun ys => ∀ y ∈ ys, R y := by
  induction xs with
  | nil => exact .pure fun _ hy => absurd hy List.not_mem_nil
  | cons x rest ih =>
    rw [List.mapM_cons]
    refine (h x List.mem_cons_self).bind fun y hy => ?_
    refine (ih fun z hz => h z (List.mem_cons_of_mem _ hz)).bind fun ys hys => .pure ?_
    exact List.forall_mem_cons.2 ⟨hy, hys⟩

theorem optionMapM {o : Option α} {f : α → AdoptM β} (h : ∀ x ∈ o, Settles (f x) R) :
    Settles (o.mapM f) fun r => ∀ y ∈ r, R y := by
  cases o with
  | none => exact .pure fun _ hy => absurd hy (Option.not_mem_none _)
  | some x => exact (h x rfl).bind fun y hy => .pure fun _ hr => Option.mem_some.1 hr ▸ hy

theorem tableMapM {t : Table α} {f : α → AdoptM β} {P : α → Prop} (ht : t.All P)
    (h : ∀ x, P x → Settles (f x) R) : Settles (t.mapM f) fun u => u.All R := by
  refine Settles.bind (.mapM fun entry hentry => ?_) fun entries h => .pure h
  exact (h entry.2 (ht entry hentry)).bind fun y hy => .pure (Q := fun e : String × β => R e.2) hy

end Settles

structure Copier.Settles (k : Copier) : Prop where
  cls : ∀ id, Adoption.Settles (k.cls id) fun _ => True
  object : ∀ id, Adoption.Settles (k.object id) fun _ => True
  function : ∀ id, Adoption.Settles (k.function id) fun _ => True
  module : ∀ id, Adoption.Settles (k.module id) fun _ => True
  scope : ∀ id, Adoption.Settles (k.scope id) fun _ => True

section Copies

open Settles

variable {w : World} {k : Copier} (hk : k.Settles)
include hk

theorem settles_adopt {t : Ty} (ht : t.Settled) : Settles (adopt k t) Ty.Settled := by
  induction ht with
  | any => rw [adopt.eq_def]; exact .pure .any
  | prim p => rw [adopt.eq_def]; exact .pure (.prim p)
  | builtin params ret => rw [adopt.eq_def]; exact .pure (.builtin params ret)
  | container _ _ elts values =>
    rw [adopt.eq_def]
    refine Settles.bind (.mapM fun t _ => elts t.1 t.2) fun es hes => ?_
    exact Settles.bind (.mapM fun t _ => values t.1 t.2) fun vs hvs => .pure (.container hes hvs)
  | union _ elts =>
    rw [adopt.eq_def]
    refine Settles.bind (.mapM fun t _ => elts t.1 t.2) fun es hes => .pure (.union fun t ht => ?_)
    exact Ty.settled_of_mem_ofList (fun t ht => (hes t ht).held) ht
  | classObj id => rw [adopt.eq_def]; exact (hk.cls id).bind fun _ _ => .pure (.classObj _)
  | object id => rw [adopt.eq_def]; exact (hk.object id).bind fun _ _ => .pure (.object _)
  | function id => rw [adopt.eq_def]; exact (hk.function id).bind fun _ _ => .pure (.function _)
  | method object id =>
    rw [adopt.eq_def]
    exact (hk.object object).bind fun _ _ => (hk.function id).bind fun _ _ => .pure (.method _ _)
  | module id => rw [adopt.eq_def]; exact (hk.module id).bind fun _ _ => .pure (.module _)

theorem settles_adoptOption {o : Option Ty} (ho : ∀ t ∈ o, t.Settled) :
    Settles (o.mapM (adopt k)) fun r => ∀ t ∈ r, t.Settled :=
  optionMapM fun t ht => settles_adopt hk (ho t ht)

theorem settles_adoptSlot {slot : Slot} (h : slot.type.Held) :
    Settles (adoptSlot k slot) fun copy => copy.type.Held := by
  cases slot with
  | function id => exact (hk.function id).bind fun _ _ => .pure (.inr (.function _))
  | value t =>
    rcases h with rfl | ht
    · refine Settles.bind (Q := (· = Ty.undefined)) ?_ fun r hr => ?_
      · rw [adopt.eq_def]
        exact .pure rfl
      · exact .pure (Q := fun copy : Slot => copy.type.Held) (.inl hr)
    · exact (settles_adopt hk ht).bind fun r hr => .pure hr.held

theorem settles_copyClass (hw : w.Settled) (id : ClassId) :
    Settles (copyClass w k id) fun _ => True := by
  have hinfo := hw.arena.cls id
  refine .get_bind fun a => ?_
  split
  · exact .pure trivial
  refine Settles.bind (.mapM fun base _ => hk.cls base) fun bases _ => .get_bind fun b => ?_
  split
  · exact .pure trivial
  refine modifyGet_bind (fun a ha => ⟨ha.arena.addClass ?_, ha.scopes⟩) fun copy => ?_
  · exact ⟨Table.all_empty, fun _ h => absurd h (Option.not_mem_none _)⟩
  refine modify_bind (fun a ha => ⟨ha.arena, ha.scopes⟩) ?_
  refine Settles.bind (tableMapM hinfo.attributes fun slot h => settles_adoptSlot hk h)
    fun attributes hattributes => modify_bind (fun a ha => ?_) (.pure trivial)
  exact ⟨ha.arena.modifyClass copy fun _ hc => { hc with attributes := hattributes }, ha.scopes⟩

theorem settles_copyObject (hw : w.Settled) (id : ObjectId) :
    Settles (copyObject w k id) fun _ => True := by
  refine .get_bind fun a => ?_
  split
  · exact .pure trivial
  refine (hk.cls _).bind fun cls _ => ?_
  refine modifyGet_bind (fun a ha => ⟨ha.arena.addObject cls, ha.scopes⟩) fun copy => ?_
  refine modify_bind (fun a ha => ⟨ha.arena, ha.scopes⟩) ?_
  refine Settles.bind (tableMapM (hw.arena.object id) fun t ht => settles_adopt hk ht)
    fun overlay hoverlay => modify_bind (fun a ha => ?_) (.pure trivial)
  exact ⟨ha.arena.modifyObject copy fun _ _ => hoverlay, ha.scopes⟩

theorem settles_copyParam {p : ParamInfo} (h : p.Settled) : Settles (copyParam k p) ParamInfo.Settled := by
  refine (settles_adoptOption hk h.ascribed).bind fun ascribed hascribed => ?_
  exact (settles_adoptOption hk h.default).bind fun default hdefault => .pure ⟨hascribed, hdefault⟩

theorem settles_copySignature {signature : Signature} (h : signature.Settled) :
    Settles (copySignature k signature) Signature.Settled := by
  have param {p : ParamInfo} (hp : p ∈ signature.all) : Settles (copyParam k p) ParamInfo.Settled :=
    settles_copyParam hk (h p hp)
  refine Settles.bind (.mapM fun p hp => param ?_) fun args hargs => ?_
  · simp [Signature.all, hp]
  refine Settles.bind (optionMapM fun p hp => param ?_) fun vararg hvararg => ?_
  · simp [Signature.all, Option.mem_def.1 hp]
  refine Settles.bind (.mapM fun p hp => param ?_) fun kwonly hkwonly => ?_
  · simp [Signature.all, hp]
  refine Settles.bind (optionMapM fun p hp => param ?_) fun kwarg hkwarg => .pure fun p hp => ?_
  · simp [Signature.all, Option.mem_def.1 hp]
  simp only [Signature.all, List.mem_append, Option.mem_toList] at hp
  rcases hp with ((hp | hp) | hp) | hp
  · exact hargs p hp
  · exact hvararg p hp
  · exact hkwonly p hp
  · exact hkwarg p hp

theorem settles_copyFunction (hw : w.Settled) (id : FunctionId) :
    Settles (copyFunction w k id) fun _ => True := by
  have hinfo := hw.arena.function id
  refine .get_bind fun a => ?_
  split
  · exact .pure trivial
  refine modifyGet_bind (fun a ha => ⟨ha.arena.addFunction { hinfo with
    calls := fun _ h => absurd h List.not_mem_nil
    lastReturn := fun _ h => absurd h (Option.not_mem_none _) }, ha.scopes⟩) fun copy => ?_
  refine modify_bind (fun a ha => ⟨ha.arena, ha.scopes⟩) ?_
  refine (settles_copySignature hk hinfo.signature).bind fun signature hsignature => ?_
  refine (settles_adoptOption hk hinfo.declaredReturn).bind fun declaredReturn hdeclared => ?_
  refine (settles_adoptOption hk hinfo.lastReturn).bind fun lastReturn hlast => ?_
  refine Settles.bind (optionMapM fun owner _ => hk.cls owner) fun owner _ => ?_
  refine (hk.scope _).bind fun captured _ => modify_bind (fun a ha => ?_) (.pure trivial)
  exact ⟨ha.arena.modifyFunction copy fun f hf => { hf with
    signature := hsignature, declaredReturn := hdeclared, lastReturn := hlast }, ha.scopes⟩

theorem settles_copyModule (hw : w.Settled) (id : ModuleId) :
    Settles (copyModule w k id) fun _ => True := by
  refine .get_bind fun a => ?_
  split
  · exact .pure trivial
  refine modifyGet_bind (fun a ha => ⟨ha.arena.addModule Table.all_empty, ha.scopes⟩) fun copy => ?_
  refine modify_bind (fun a ha => ⟨ha.arena, ha.scopes⟩) ?_
  refine Settles.bind (tableMapM (hw.arena.module id) fun t ht => settles_adopt hk ht)
    fun exports hexports => modify_bind (fun a ha => ?_) (.pure trivial)
  exact ⟨ha.arena.modifyModule copy fun _ _ => hexports, ha.scopes⟩

theorem settles_copyScope (hw : w.Settled) (id : ScopeId) :
    Settles (copyScope w k id) fun _ => True := by
  unfold copyScope
  split
  · exact .pure trivial
  refine .get_bind fun a => ?_
  split
  · exact .pure trivial
  refine modifyGet_bind (fun a ha => ⟨ha.arena, ha.scopes.of_push rfl Table.all_empty⟩) fun copy => ?_
  refine Settles.bind (optionMapM fun parent _ => hk.scope parent) fun parent _ => ?_
  refine Settles.bind (tableMapM (R := fun b : Binding => b.type.Settled) (hw.scopes id) fun b hb => ?_)
    fun bindings hbindings => modify_bind (fun a ha => ⟨ha.arena, ?_⟩) (.pure trivial)
  · exact (settles_adopt hk hb).bind fun t ht => .pure ht
  · exact ha.scopes.modifyScope copy
      (f := fun c => { c with parent := parent, bindings := bindings }) fun _ _ => hbindings

end Copies

theorem settles_copierUpTo {w : World} (hw : w.Settled) (n : Nat) : (copierUpTo w n).Settles := by
  -- By induction on the fuel.
  induction n with
  | zero => exact ⟨fun _ _ _ => ⟨rfl, id⟩, fun _ _ _ => ⟨rfl, id⟩, fun _ _ _ => ⟨rfl, id⟩,
      fun _ _ _ => ⟨rfl, id⟩, fun _ _ _ => ⟨rfl, id⟩⟩
  | succ n ih =>
    exact ⟨settles_copyClass ih hw, settles_copyObject ih hw, settles_copyFunction ih hw,
      settles_copyModule ih hw, settles_copyScope ih hw⟩

theorem settles_copier {w : World} (hw : w.Settled) : (copier w).Settles :=
  settles_copierUpTo hw _

end Adoption

structure Frame.Settled (f : Frame) : Prop where
  returns : ∀ t ∈ f.returns, t.Settled
  yields : ∀ t ∈ f.yields, t.Settled

structure Session.Settled (s : Session) : Prop where
  arena : s.arena.Settled
  scopes : s.scopes.Settled
  frames : ∀ f ∈ s.frames, f.Settled
  memo : ∀ (key : String × Nat) (kept : Ty × Stamp), s.memo.entries[key]? = some kept → kept.1.Settled

theorem Session.Settled.exit {s : Session} (h : s.Settled) : { s with scopes := s.scopes.exit }.Settled :=
  ⟨h.arena, h.scopes.of_all s.scopes.all_exit, h.frames, h.memo⟩

structure CallArgs.Settled (args : CallArgs) : Prop where
  positional : ∀ t ∈ args.positional, t.Settled
  keywords : ∀ keyword ∈ args.keywords, keyword.2.Settled

/-- Hints say nothing that is undefined within, and the modules to be imported are of settled worlds. -/
structure Context.Settled (c : Context) : Prop where
  hints : ∀ span found, c.hints.get? span = some found → found.1.Held
  modules : ∀ entry ∈ c.modules.entries, entry.2.world.Settled

def Discipline.settled : Discipline where
  inv := Session.Settled
  le _ _ := True
  stop _ := True
  le_refl _ := trivial
  le_trans _ _ := trivial

theorem Session.Settled.moves {s t : Session} (h : t.Settled) : Discipline.settled.Moves s t :=
  ⟨h, trivial⟩

/-- The steps do the same from settled sessions on: they go to settled sessions, and their results have a
property. -/
def Check.Settles {α : Type} (c : Context) (x y : CheckM α) (Q : α → Prop) : Prop :=
  ∀ s : Session, s.Settled → Discipline.settled.Yields c x y s fun _ => Q

namespace Check.Settles

open Discipline

variable {α β : Type} {c : Context} {Q : α → Prop} {R : β → Prop} {x y : CheckM α}

theorem imp {Q' : α → Prop} (h : Settles c x y Q) (himp : ∀ a, Q a → Q' a) : Settles c x y Q' :=
  fun s hs => (h s hs).imp fun a _ _ => himp a

protected theorem and {Q' : α → Prop} (h : Settles c x y Q) (h' : Settles c x y Q') :
    Settles c x y fun a => Q a ∧ Q' a :=
  fun s hs => { h s hs with
    result := fun a t ht => ⟨(h s hs).result a t ht, (h' s hs).result a t ht⟩ }

theorem of_ok {r : Session → α} {f : Session → Session} (hx : ∀ s, x.outcome c s = (.ok (r s), f s))
    (h : ∀ s : Session, s.Settled → (f s).Settled ∧ Q (r s)) : Settles c x x Q :=
  fun s hs => .of_ok (hx s) (h s hs).1.moves (h s hs).2

protected theorem pure {a : α} (h : Q a) : Settles c (pure a) (pure a) Q :=
  fun _ hs => .pure hs h

protected theorem throw (stop : Stop) : Settles c (throw stop : CheckM α) (throw stop) Q :=
  fun _ hs => .throw hs trivial

protected theorem bind {f g : α → CheckM β} (hx : Settles c x y Q)
    (hf : ∀ a, Q a → Settles c (f a) (g a) R) : Settles c (x >>= f) (y >>= g) R :=
  fun s hs => (hx s hs).bind fun a t hst ha => hf a ha t hst.1

theorem andPure {b : β} (hx : Settles c x y Q) (hb : R b) :
    Settles c (x >>= fun _ => pure b) (y >>= fun _ => pure b) R :=
  hx.bind fun _ _ => .pure hb

protected theorem map {f : α → β} (hx : Settles c x y Q) (hf : ∀ a, Q a → R (f a)) :
    Settles c (f <$> x) (f <$> y) R :=
  fun s hs => (hx s hs).map fun a _ _ => hf a

protected theorem get_bind {f g : Session → CheckM β}
    (h : ∀ s : Session, s.Settled → Settles c (f s) (g s) R) : Settles c (get >>= f) (get >>= g) R :=
  fun s hs => .get_bind (h s hs s hs)

protected theorem read_bind {f g : Context → CheckM β} (h : Settles c (f c) (g c) R) :
    Settles c (read >>= f) (read >>= g) R :=
  fun s hs => .read_bind (h s hs)

protected theorem modify {f : Session → Session} (h : ∀ s : Session, s.Settled → (f s).Settled) :
    Settles c (modify f : CheckM PUnit) (modify f) fun _ => True :=
  fun s hs => .modify (h s hs).moves trivial

protected theorem modifyGet {f : Session → α × Session}
    (h : ∀ s : Session, s.Settled → (f s).2.Settled ∧ Q (f s).1) :
    Settles c (modifyGet f : CheckM α) (modifyGet f) Q :=
  fun s hs => .modifyGet (h s hs).1.moves (h s hs).2

protected theorem attempt (h : Settles c x y Q) :
    Settles c (attempt x) (attempt y) fun result => ∀ a, result = .ok a → Q a := by
  refine fun s hs => ⟨(h s hs).toEnds.attempt, fun result t ht a hresult => ?_⟩
  have hvalue := (h s hs).result a t
  rw [outcome_attempt] at ht
  cases ht
  exact hvalue (Prod.ext hresult rfl)

protected theorem ensuring {f : Session → Session} (h : Settles c x y Q)
    (hf : ∀ s : Session, s.Settled → (f s).Settled) :
    Settles c (ensuring x (modify f)) (ensuring y (modify f)) Q := by
  intro s hs
  refine (h s hs).ensuring (fun t hst => ?_) fun _ _ _ ha => ha
  exact (hf t hst.1).moves

protected theorem forIn {xs : List α} {f g : α → PUnit → CheckM (ForInStep PUnit)}
    (h : ∀ a ∈ xs, Settles c (f a ⟨⟩) (g a ⟨⟩) fun _ => True) :
    Settles c (forIn xs PUnit.unit f) (forIn xs PUnit.unit g) fun _ => True :=
  fun _ hs => .forIn hs fun a ha t hst => h a ha t hst.1

theorem forEach {xs : List α} {f g : α → CheckM PUnit} (h : ∀ a ∈ xs, Settles c (f a) (g a) fun _ => True) :
    Settles c (forIn xs PUnit.unit fun a _ => do f a; pure (.yield ⟨⟩))
      (forIn xs PUnit.unit fun a _ => do g a; pure (.yield ⟨⟩)) fun _ => True :=
  .forIn fun a ha => (h a ha).andPure trivial

protected theorem forM {xs : List α} {f g : α → CheckM PUnit}
    (h : ∀ a ∈ xs, Settles c (f a) (g a) fun _ => True) :
    Settles c (xs.forM f) (xs.forM g) fun _ => True :=
  fun _ hs => .forM hs fun a ha t hst => h a ha t hst.1

protected theorem foldlM {xs : List α} {b : β} {f g : β → α → CheckM β} (hb : R b)
    (h : ∀ a ∈ xs, ∀ b, R b → Settles c (f b a) (g b a) R) :
    Settles c (xs.foldlM f b) (xs.foldlM g b) R := by
  intro s hs
  refine .foldlM (R := fun _ => R) hs hb fun a ha b t hst hb => ?_
  exact h a ha b hb t hst.1

protected theorem mapM {xs : List α} {f g : α → CheckM β} (h : ∀ a ∈ xs, Settles c (f a) (g a) R) :
    Settles c (xs.mapM f) (xs.mapM g) fun bs => ∀ b ∈ bs, R b := by
  intro s hs
  refine .mapM (R := fun _ => R) hs (fun _ _ _ _ h => h) fun a ha t hst => ?_
  exact h a ha t hst.1

theorem optionMapM {o : Option α} {f g : α → CheckM β} (h : ∀ a ∈ o, Settles c (f a) (g a) R) :
    Settles c (o.mapM f) (o.mapM g) fun r => ∀ b ∈ r, R b := by
  intro s hs
  refine Yields.optionMapM (R := fun _ => R) hs fun a ha => ?_
  exact h a ha s hs

theorem getArena : Settles c CheckM.getArena CheckM.getArena Arena.Settled :=
  of_ok (r := Session.arena) (f := id) (fun _ => rfl) fun _ hs => ⟨hs, hs.arena⟩

theorem getScopes : Settles c CheckM.getScopes CheckM.getScopes Scopes.Settled :=
  of_ok (r := Session.scopes) (f := id) (fun _ => rfl) fun _ hs => ⟨hs, hs.scopes⟩

theorem withArena {f : Arena → α × Arena} (hf : ∀ a : Arena, a.Settled → (f a).2.Settled ∧ Q (f a).1) :
    Settles c (CheckM.withArena f) (CheckM.withArena f) Q := by
  refine .modifyGet fun s hs => ?_
  obtain ⟨harena, hresult⟩ := hf _ hs.arena
  exact ⟨{ hs with arena := harena }, hresult⟩

theorem modifyArena {f : Arena → Arena} (hf : ∀ a : Arena, a.Settled → (f a).Settled) :
    Settles c (CheckM.modifyArena f) (CheckM.modifyArena f) fun _ => True :=
  .modify fun _ hs => { hs with arena := hf _ hs.arena }

theorem modifyScopes {f : Scopes → Scopes} (hf : ∀ s : Scopes, s.Settled → (f s).Settled) :
    Settles c (CheckM.modifyScopes f) (CheckM.modifyScopes f) fun _ => True :=
  .modify fun _ hs => { hs with scopes := hf _ hs.scopes }

theorem modifyHub (f : Hub → Hub) :
    Settles c (CheckM.modifyHub f) (CheckM.modifyHub f) fun _ => True :=
  .modify fun _ hs => { hs with }

theorem report (finding : Finding) :
    Settles c (CheckM.report finding) (CheckM.report finding) fun _ => True :=
  modifyHub _

theorem warn (text : String) : Settles c (CheckM.warn text) (CheckM.warn text) fun _ => True :=
  .modify fun _ hs => { hs with }

theorem display (t : Ty) : Settles c (CheckM.display t) (CheckM.display t) fun _ => True :=
  getArena.bind fun _ _ => .pure trivial

theorem hint? (e : Expr) :
    Settles c (CheckM.hint? e) (CheckM.hint? e) fun hint =>
      ∀ found ∈ hint, c.hints.get? e.span = some found := by
  refine .read_bind (.pure fun found hfound => ?_)
  split at hfound
  · exact hfound
  · exact absurd hfound (Option.not_mem_none _)

theorem confidenceOf (e : Expr) :
    Settles c (CheckM.confidenceOf e) (CheckM.confidenceOf e) fun _ => True := by
  refine (hint? e).bind fun hint _ => ?_
  cases hint with
  | none => exact .read_bind (.pure trivial)
  | some found => exact .pure trivial

theorem setName (name : String) {t : Ty} (ht : t.Settled) (confidence : Float) :
    Settles c (CheckM.modifyScopes (·.set name t confidence))
      (CheckM.modifyScopes (·.set name t confidence)) fun _ => True :=
  modifyScopes fun _ hs => hs.set name ht confidence

theorem bindName (name : String) {value : Ty} (hvalue : value.Settled) (confidence : Float) :
    Settles c (CheckM.bindName name value confidence) (CheckM.bindName name value confidence)
      fun _ => True := by
  refine getScopes.bind fun scopes hs => getArena.bind fun _ _ => ?_
  refine (modifyScopes fun _ _ => hs.add name hvalue confidence).bind fun _ _ => ?_
  exact modifyHub _

theorem classLookup (id : ClassId) (name : String) :
    Settles c (CheckM.withArena (·.classLookup id name)) (CheckM.withArena (·.classLookup id name))
      fun _ => True :=
  withArena fun _ ha => ⟨(ha.classLookup id name).2, trivial⟩

theorem addObject (id : ClassId) :
    Settles c (CheckM.withArena (·.addObject id)) (CheckM.withArena (·.addObject id)) fun _ => True :=
  withArena fun _ ha => ⟨ha.addObject id, trivial⟩

theorem standIn (id : ClassId) : Settles c (CheckM.standIn id) (CheckM.standIn id) Ty.Settled := by
  refine .get_bind fun s _ => ?_
  split
  · exact .pure (.object _)
  · refine (addObject id).bind fun object _ => ?_
    refine (Settles.modify fun _ hs => ?_).andPure (Ty.Settled.object object)
    exact ⟨hs.arena, hs.scopes, hs.frames, hs.memo⟩

theorem inScope {name : String} (h : Settles c x y Q) :
    Settles c (CheckM.inScope name x) (CheckM.inScope name y) Q := by
  refine (Settles.modifyGet (Q := fun _ => True) fun s hs => ?_).bind fun _ _ => ?_
  · exact ⟨{ hs with scopes := hs.scopes.enter name }, trivial⟩
  · exact h.ensuring fun _ hs => hs.exit

theorem inClassBody {name : String} {id : ClassId} {x y : ScopeId → CheckM α}
    (h : ∀ scope, Settles c (x scope) (y scope) Q) :
    Settles c (CheckM.inClassBody name id x) (CheckM.inClassBody name id y) Q := by
  refine Settles.bind (Q := fun _ => True) (.modifyGet fun _ hs => ?_) fun scope _ => ?_
  · exact ⟨{ hs with scopes := hs.scopes.enter name }, trivial⟩
  refine Settles.bind (.modify fun _ hs => ?_) fun _ _ => (h scope).ensuring fun _ hs => ?_
  · exact ⟨hs.arena, hs.scopes, hs.frames, hs.memo⟩
  · exact ⟨hs.arena, hs.exit.scopes, hs.frames, hs.memo⟩

theorem inBranch {name : String} {x y : CheckM Unit} (h : Settles c x y fun _ => True) :
    Settles c (CheckM.inBranch name x) (CheckM.inBranch name y) fun _ => True := by
  refine (Settles.modifyGet (Q := fun _ => True) fun s hs => ?_).bind fun _ _ => ?_
  · exact ⟨{ hs with scopes := hs.scopes.enter name }, trivial⟩
  · exact h.ensuring fun _ hs => { hs with scopes := hs.scopes.exitBranch _ }

theorem suppressing {kinds : List DiagnosticKind} {x y : CheckM Unit}
    (h : Settles c x y fun _ => True) :
    Settles c (CheckM.suppressing kinds x) (CheckM.suppressing kinds y) fun _ => True :=
  (modifyHub _).bind fun _ _ => h.ensuring fun _ hs => { hs with }

theorem adopting {x : AdoptM α} (hx : Adoption.Settles x Q) :
    Settles c (Check.adopting x) (Check.adopting x) Q := by
  intro s hs
  have hgives := hx { arena := s.arena, scopes := s.scopes } ⟨hs.arena, hs.scopes⟩
  refine .get_bind ?_
  unfold Adoption.Gives at hgives
  cases hrun : x.run { arena := s.arena, scopes := s.scopes } with
  | ok result =>
    rw [hrun] at hgives
    exact .of_ok rfl
      (Session.Settled.moves { hs with arena := hgives.1.arena, scopes := hgives.1.scopes }) hgives.2
  | error stop => exact .throw hs trivial

section Imports

variable (hc : c.Settled)
include hc

theorem settled_of_get? {path : String} {table : SymbolTable} (h : c.modules.get? path = some table) :
    table.world.Settled :=
  hc.modules _ (mem_of_lookup h)

omit hc in
theorem adopt {table : SymbolTable} (hw : table.world.Settled) {name : String} {b : Binding}
    (hb : (name, b) ∈ table.bindings.entries) :
    Adoption.Settles (Adoption.adopt (Adoption.copier table.world) b.type) Ty.Settled :=
  Adoption.settles_adopt (Adoption.settles_copier hw) (hw.scopes table.scope _ hb)

theorem moduleAt? (path name : String) :
    Settles c (Check.moduleAt? path name) (Check.moduleAt? path name) fun found =>
      ∀ t ∈ found, t.Settled := by
  refine .read_bind (optionMapM fun table htable => ?_)
  have hw := settled_of_get? hc (Option.mem_def.1 htable)
  refine (adopting (Adoption.Settles.tableMapM (R := Ty.Settled) (hw.scopes table.scope) fun b hb =>
    Adoption.settles_adopt (Adoption.settles_copier hw) hb)).bind fun exports hexports => ?_
  exact (withArena (Q := fun _ => True) fun _ ha => ⟨ha.addModule hexports, trivial⟩).bind fun id _ =>
    .pure (.module id)

theorem wrapModule (parts : List String) {value : Ty} (hvalue : value.Settled) (depth : Nat) :
    Settles c (Check.wrapModule parts value depth) (Check.wrapModule parts value depth) Ty.Settled := by
  refine (moduleAt? hc _ _).bind fun found _ => ?_
  split
  · rename_i id _
    refine (modifyArena fun _ ha => ha.modifyModule id (f := fun m =>
      { m with exports := m.exports.insert _ value }) fun _ hm => hm.insert _ hvalue).andPure ?_
    exact Ty.Settled.module id
  · refine (withArena (Q := fun _ => True) fun _ ha => ⟨ha.addModule ?_, trivial⟩).bind fun id _ =>
      .pure (.module id)
    exact Table.all_ofList (List.forall_mem_singleton.2 hvalue)

theorem importModule (a : Alias) :
    Settles c (Check.importModule a) (Check.importModule a) fun _ => True := by
  refine (moduleAt? hc _ _).bind fun found hfound => ?_
  have hvalue : (found.getD .any).Settled := by
    cases found with
    | none => exact .any
    | some value => exact hfound value rfl
  simp only
  split
  · exact setName _ hvalue _
  · exact (Settles.foldlM hvalue fun depth _ value hvalue => wrapModule hc _ hvalue depth).bind
      fun bound hbound => setName _ hbound _

omit hc in
theorem importAll {table : SymbolTable} (hw : table.world.Settled) :
    Settles c (Check.importAll table) (Check.importAll table) fun _ => True := by
  refine adopting ?_
  generalize hentries : (table.bindings.entries.filter _) = entries
  have hmem : ∀ entry ∈ entries, entry ∈ table.bindings.entries := fun entry hentry =>
    (List.mem_filter.1 (hentries ▸ hentry)).1
  clear hentries
  refine Adoption.Settles.bind (Q := fun _ => True) ?_ fun _ _ => .pure trivial
  induction entries with
  | nil => exact .pure trivial
  | cons entry rest ih =>
    rw [List.forIn_cons]
    obtain ⟨hentry, hrest⟩ := List.forall_mem_cons.1 hmem
    refine Adoption.Settles.bind (Q := fun step => step = ForInStep.yield PUnit.unit) ?_
      fun step hstep => ?_
    · refine (adopt hw hentry).bind fun t ht => Adoption.Settles.modify_bind (fun a ha => ?_) (.pure rfl)
      exact ⟨ha.arena, ha.scopes.set _ ht _⟩
    · subst hstep
      exact ih hrest

theorem importName (module : String) {table? : Option SymbolTable} (a : Alias)
    (h : ∀ table ∈ table?, table.world.Settled) :
    Settles c (Check.importName module table? a) (Check.importName module table? a) fun _ => True := by
  unfold Check.importName
  split
  · rename_i table binding hfound
    obtain ⟨found, htable, hbinding⟩ := Option.bind_eq_some_iff.1 hfound
    obtain ⟨b, hget, hb⟩ := Option.map_eq_some_iff.1 hbinding
    cases hb
    exact (adopting (adopt (h table htable) (mem_of_lookup hget))).bind fun t ht => setName _ ht _
  · refine (moduleAt? hc _ _).bind fun found hfound => ?_
    cases found with
    | none => exact setName _ .any _
    | some value => exact setName _ (hfound value rfl) _

theorem importFrom (module : String) (names : List Alias) :
    Settles c (Check.importFrom module names) (Check.importFrom module names) fun _ => True := by
  refine .read_bind (Settles.andPure (.forIn fun a _ => ?_) trivial)
  split
  · split
    · exact (importAll (settled_of_get? hc ‹_›)).andPure trivial
    · exact .pure trivial
  · exact (importName hc module a fun table htable => settled_of_get? hc htable).andPure trivial

end Imports

end Check.Settles

end Credence

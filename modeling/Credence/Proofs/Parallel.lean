import Credence.Check.Call
import Credence.Check.Signature
import Credence.Proofs.Founded
import Credence.Proofs.Outcome
import Credence.Proofs.Twin

namespace Credence

open CheckM

namespace Memo

variable {m : Memo} {file : String} {node : Nat} {stamp kept : Stamp} {t : Ty}

theorem get_of_found (h : m.entries[(file, node)]? = some (t, kept)) :
    (m.get file node stamp).1 = if kept = stamp then some t else none := by
  rw [get, h]
  simp only
  split <;> rfl

theorem get_of_stale {base : Nat} (h : ∀ kept ∈ m.entries[(file, node)]?, kept.2.scope.val < base)
    (hstamp : base ≤ stamp.scope.val) : (m.get file node stamp).1 = none := by
  cases hm : m.entries[(file, node)]? with
  | none =>
    rw [get, hm]
  | some found =>
    have hlt := h found hm
    rw [get_of_found hm, if_neg]
    rintro rfl
    omega

end Memo

namespace Pairing

variable {P : Pairing} {spine rest : List Nat} {d : Nat} {a a' b b' : Stamp} {s t : Session} {α β : Type}
  {Q : α → Prop} {R : β → Prop}

/-- Conditions that correspond in the two runs. -/
structure Matching (P : Pairing) (a b : Stamp) : Prop where
  inside : P.left.base ≤ a.scope.val
  scope : a.scope.val + P.right.base = b.scope.val + P.left.base
  generation : a.scopeGeneration + P.right.generation = b.scopeGeneration + P.left.generation
  left : a.arenaGeneration = P.left.arena.generation
  right : b.arenaGeneration = P.right.arena.generation

theorem Matching.eq_iff (h : P.Matching a b) (h' : P.Matching a' b') : a = a' ↔ b = b' := by
  obtain ⟨⟨scope⟩, generation, arena⟩ := a
  obtain ⟨⟨scope'⟩, generation', arena'⟩ := a'
  obtain ⟨⟨place⟩, count, version⟩ := b
  obtain ⟨⟨place'⟩, count', version'⟩ := b'
  obtain ⟨-, hscope, hgeneration, hleft, hright⟩ := h
  obtain ⟨-, hscope', hgeneration', hleft', hright'⟩ := h'
  simp only [Stamp.mk.injEq, ScopeId.mk.injEq] at *
  omega

/-- What the runs remember of a node: a type of their own, found under conditions that correspond, or nothing
but what was found before they started. -/
inductive Recalled (P : Pairing) : Option (Ty × Stamp) → Option (Ty × Stamp) → Prop
  | stale {o o' : Option (Ty × Stamp)} (left : ∀ kept ∈ o, kept.2.scope.val < P.left.base)
      (right : ∀ kept ∈ o', kept.2.scope.val < P.right.base) : Recalled P o o'
  | found {t : Ty} {a b : Stamp} (closed : t.Closed) (h : P.Matching a b) : Recalled P (some (t, a)) (some (t, b))

theorem Recalled.get {m m' : Memo} {file : String} {node : Nat}
    (h : P.Recalled m.entries[(file, node)]? m'.entries[(file, node)]?) (hab : P.Matching a b) :
    (m.get file node a).1 = (m'.get file node b).1 ∧ ∀ t ∈ (m.get file node a).1, t.Closed := by
  generalize hm : m.entries[(file, node)]? = o at h
  generalize hm' : m'.entries[(file, node)]? = o' at h
  cases h with
  | found closed hfound =>
    rw [Memo.get_of_found hm, Memo.get_of_found hm']
    simp only [hfound.eq_iff hab, true_and]
    split
    · exact fun _ ht => Option.mem_some.1 ht ▸ closed
    · exact nofun
  | stale left right =>
    have hinside := hab.inside
    have hscope := hab.scope
    rw [Memo.get_of_stale (hm ▸ left) hinside, Memo.get_of_stale (hm' ▸ right) (by omega)]
    exact ⟨rfl, nofun⟩

/-- The innermost bodies have returned and yielded the same. -/
inductive Abreast : List Frame → List Frame → Prop
  | head {function function' : FunctionId} {returns yields : List Ty} {frames frames' : List Frame}
      (returned : ∀ t ∈ returns, t.Closed) (yielded : ∀ t ∈ yields, t.Closed) :
      Abreast (⟨function, returns, yields⟩ :: frames) (⟨function', returns, yields⟩ :: frames')

/-- Two sessions that are alike in all that the body can tell. Their arenas are those from the start. -/
structure Twin (P : Pairing) (spine : List Nat) (s t : Session) : Prop where
  left : s.arena = P.left.arena
  right : t.arena = P.right.arena
  scopes : P.Joint spine s.scopes t.scopes
  memo : ∀ key : String × Nat, P.Recalled s.memo.entries[key]? t.memo.entries[key]?
  frames : Abreast s.frames t.frames

/-- Two runs come out alike: with the same result, or each with a fault. Where one of them lacks depth the
other may come out as it likes. -/
inductive Agrees (P : Pairing) (spine : List Nat) (Q : α → Prop) :
    Except Stop α × Session → Except Stop α × Session → Prop
  | ok {r : α} {s t : Session} (hr : Q r) (h : P.Twin spine s t) : Agrees P spine Q (.ok r, s) (.ok r, t)
  | fault {f g : Fault} {s t : Session} (h : P.Twin spine s t) :
    Agrees P spine Q (.error (.fault f), s) (.error (.fault g), t)
  | left {s : Session} {o : Except Stop α × Session} : Agrees P spine Q (.error .exhausted, s) o
  | right {o : Except Stop α × Session} {t : Session} : Agrees P spine Q o (.error .exhausted, t)

theorem Agrees.andThen {c : Context} {o o' : Except Stop α × Session} {f g : α → CheckM β}
    (h : P.Agrees spine Q o o')
    (hf : ∀ r, Q r → ∀ s t, P.Twin spine s t → P.Agrees rest R ((f r).outcome c s) ((g r).outcome c t))
    (hfault : ∀ s t, P.Twin spine s t → P.Twin rest s t) :
    P.Agrees rest R (andThen o c f) (andThen o' c g) := by
  cases h with
  | ok hr h => exact hf _ hr _ _ h
  | fault h => exact .fault (hfault _ _ h)
  | left => exact .left
  | right => exact .right

end Pairing

/-- The steps go from twins to twins, and come out alike with a result of which something holds. -/
def Check.Parallel {α : Type} (c : Context) (P : Pairing) (spine : List Nat) (x y : CheckM α) (Q : α → Prop) : Prop :=
  ∀ s t : Session, P.Twin spine s t → P.Agrees spine Q (x.outcome c s) (y.outcome c t)

namespace Check.Parallel

open Pairing

variable {α β : Type} {c : Context} {P : Pairing} {spine : List Nat} {Q : α → Prop} {R : β → Prop}
  {x y : CheckM α}

theorem imp {Q' : α → Prop} (h : Parallel c P spine x y Q) (himp : ∀ a, Q a → Q' a) : Parallel c P spine x y Q' := by
  intro s t hst
  have hxy := h s t hst
  revert hxy
  generalize x.outcome c s = o
  generalize y.outcome c t = o'
  rintro (⟨hr, h⟩ | h | _ | _)
  · exact .ok (himp _ hr) h
  · exact .fault h
  · exact .left
  · exact .right

protected theorem pure {a : α} (h : Q a) : Parallel c P spine (pure a) (pure a) Q :=
  fun _ _ hst => .ok h hst

protected theorem fault (f g : Fault) :
    Parallel c P spine (throw (.fault f) : CheckM α) (throw (.fault g)) Q :=
  fun _ _ hst => .fault hst

protected theorem exhausted : Parallel c P spine (throw .exhausted : CheckM α) (throw .exhausted) Q :=
  fun _ _ _ => .left

protected theorem bind {f g : α → CheckM β} (hx : Parallel c P spine x y Q)
    (hf : ∀ a, Q a → Parallel c P spine (f a) (g a) R) : Parallel c P spine (x >>= f) (y >>= g) R := by
  intro s t hst
  rw [outcome_bind, outcome_bind]
  exact (hx s t hst).andThen (fun a ha => hf a ha) fun _ _ h => h

theorem andPure {b : β} (hx : Parallel c P spine x y Q) (hb : R b) :
    Parallel c P spine (x >>= fun _ => pure b) (y >>= fun _ => pure b) R :=
  hx.bind fun _ _ => .pure hb

protected theorem map {f : α → β} (hx : Parallel c P spine x y Q) (hf : ∀ a, Q a → R (f a)) :
    Parallel c P spine (f <$> x) (f <$> y) R := by
  rw [← bind_pure_comp, ← bind_pure_comp]
  exact hx.bind fun a ha => .pure (hf a ha)

protected theorem get_bind {f g : Session → CheckM β}
    (h : ∀ s t, P.Twin spine s t → Parallel c P spine (f s) (g t) R) :
    Parallel c P spine (get >>= f) (get >>= g) R :=
  fun s t hst => h s t hst s t hst

protected theorem read_bind {f g : Context → CheckM β} (h : Parallel c P spine (f c) (g c) R) :
    Parallel c P spine (read >>= f) (read >>= g) R :=
  h

protected theorem modify {f g : Session → Session} (h : ∀ s t, P.Twin spine s t → P.Twin spine (f s) (g t)) :
    Parallel c P spine (modify f : CheckM PUnit) (modify g) fun _ => True :=
  fun s t hst => .ok trivial (h s t hst)

protected theorem modifyGet {f g : Session → α × Session}
    (h : ∀ s t, P.Twin spine s t → (f s).1 = (g t).1 ∧ Q (f s).1 ∧ P.Twin spine (f s).2 (g t).2) :
    Parallel c P spine (modifyGet f : CheckM α) (modifyGet g) Q := by
  intro s t hst
  obtain ⟨hsame, hresult, htwin⟩ := h s t hst
  rw [outcome_modifyGet, outcome_modifyGet, ← hsame]
  exact .ok hresult htwin

theorem attempt_bind {f g : Except Stop α → CheckM β} (hx : Parallel c P spine x y Q)
    (hok : ∀ a, Q a → Parallel c P spine (f (.ok a)) (g (.ok a)) R)
    (hfault : ∀ a b, Parallel c P spine (f (.error (.fault a))) (g (.error (.fault b))) R)
    (hf : f (.error .exhausted) = throw .exhausted) (hg : g (.error .exhausted) = throw .exhausted) :
    Parallel c P spine (attempt x >>= f) (attempt y >>= g) R := by
  intro s t hst
  have hxy := hx s t hst
  rw [outcome_bind, outcome_bind, outcome_attempt, outcome_attempt, andThen_ok, andThen_ok]
  revert hxy
  generalize x.outcome c s = o
  generalize y.outcome c t = o'
  rintro (⟨hr, h⟩ | h | _ | _)
  · exact hok _ hr _ _ h
  · exact hfault _ _ _ _ h
  · rw [hf]
    exact .left
  · rw [hg]
    exact .right

protected theorem forIn {xs : List α} {f g : α → PUnit → CheckM (ForInStep PUnit)}
    (h : ∀ a ∈ xs, Parallel c P spine (f a ⟨⟩) (g a ⟨⟩) fun _ => True) :
    Parallel c P spine (forIn xs PUnit.unit f) (forIn xs PUnit.unit g) fun _ => True := by
  induction xs with
  | nil => exact .pure trivial
  | cons a rest ih =>
    rw [List.forIn_cons, List.forIn_cons]
    refine (h a List.mem_cons_self).bind fun step _ => ?_
    cases step with
    | done _ => exact .pure trivial
    | yield _ => exact ih fun b hb => h b (List.mem_cons_of_mem a hb)

theorem forEach {xs : List α} {f g : α → CheckM PUnit}
    (h : ∀ a ∈ xs, Parallel c P spine (f a) (g a) fun _ => True) :
    Parallel c P spine (forIn xs PUnit.unit fun a _ => do f a; pure (.yield ⟨⟩))
      (forIn xs PUnit.unit fun a _ => do g a; pure (.yield ⟨⟩)) fun _ => True :=
  .forIn fun a ha => (h a ha).andPure trivial

protected theorem forM {xs : List α} {f g : α → CheckM PUnit}
    (h : ∀ a ∈ xs, Parallel c P spine (f a) (g a) fun _ => True) :
    Parallel c P spine (xs.forM f) (xs.forM g) fun _ => True := by
  induction xs with
  | nil => exact .pure trivial
  | cons a rest ih =>
    exact (h a List.mem_cons_self).bind fun _ _ => ih fun b hb => h b (List.mem_cons_of_mem a hb)

protected theorem foldlM {xs : List α} {b : β} {f g : β → α → CheckM β} (hb : R b)
    (h : ∀ a ∈ xs, ∀ b, R b → Parallel c P spine (f b a) (g b a) R) :
    Parallel c P spine (xs.foldlM f b) (xs.foldlM g b) R := by
  induction xs generalizing b with
  | nil => exact .pure hb
  | cons a rest ih =>
    rw [List.foldlM_cons, List.foldlM_cons]
    exact (h a List.mem_cons_self b hb).bind fun b hb => ih hb fun a ha => h a (List.mem_cons_of_mem _ ha)

protected theorem mapM {xs : List α} {f g : α → CheckM β} (h : ∀ a ∈ xs, Parallel c P spine (f a) (g a) R) :
    Parallel c P spine (xs.mapM f) (xs.mapM g) fun bs => ∀ b ∈ bs, R b := by
  induction xs with
  | nil => exact .pure fun _ hb => absurd hb List.not_mem_nil
  | cons a rest ih =>
    rw [List.mapM_cons, List.mapM_cons]
    refine (h a List.mem_cons_self).bind fun b hb => ?_
    refine (ih fun b hb => h b (List.mem_cons_of_mem a hb)).bind fun bs hbs => .pure ?_
    exact List.forall_mem_cons.2 ⟨hb, hbs⟩

theorem getArena_bind {f g : Arena → CheckM β} (h : Parallel c P spine (f P.left.arena) (g P.right.arena) R) :
    Parallel c P spine (getArena >>= f) (getArena >>= g) R := by
  intro s t hst
  change P.Agrees spine R ((f s.arena).outcome c s) ((g t.arena).outcome c t)
  rw [hst.left, hst.right]
  exact h s t hst

theorem getScopes_bind {f g : Scopes → CheckM β}
    (h : ∀ s t, P.Joint spine s t → Parallel c P spine (f s) (g t) R) :
    Parallel c P spine (getScopes >>= f) (getScopes >>= g) R :=
  fun s t hst => h s.scopes t.scopes hst.scopes s t hst

theorem modifyScopes {f g : Scopes → Scopes} (h : ∀ s t, P.Joint spine s t → P.Joint spine (f s) (g t)) :
    Parallel c P spine (CheckM.modifyScopes f) (CheckM.modifyScopes g) fun _ => True := by
  refine .modify fun s t hst => ?_
  exact { hst with scopes := h s.scopes t.scopes hst.scopes }

theorem modifyArena {f g : Arena → Arena} (hf : f P.left.arena = P.left.arena) (hg : g P.right.arena = P.right.arena) :
    Parallel c P spine (CheckM.modifyArena f) (CheckM.modifyArena g) fun _ => True := by
  refine .modify fun s t hst => { hst with left := ?_, right := ?_ }
  · change f s.arena = _
    rw [hst.left, hf]
  · change g t.arena = _
    rw [hst.right, hg]

theorem modifyHub (f g : Hub → Hub) :
    Parallel c P spine (CheckM.modifyHub f) (CheckM.modifyHub g) fun _ => True :=
  .modify fun _ _ hst => { hst with }

theorem report (f g : Finding) : Parallel c P spine (CheckM.report f) (CheckM.report g) fun _ => True :=
  modifyHub _ _

theorem reportAll (fs gs : List Finding) :
    Parallel c P spine (CheckM.reportAll fs) (CheckM.reportAll gs) fun _ => True :=
  modifyHub _ _

theorem warn (text text' : String) :
    Parallel c P spine (CheckM.warn text) (CheckM.warn text') fun _ => True :=
  .modify fun _ _ hst => { hst with }

theorem flush : Parallel c P spine CheckM.flush CheckM.flush fun _ => True :=
  .modify fun _ _ hst => ⟨hst.left, hst.right, hst.scopes, hst.memo, hst.frames⟩

theorem display_bind {t : Ty} {f g : String → CheckM β} (h : ∀ m n, Parallel c P spine (f m) (g n) R) :
    Parallel c P spine (CheckM.display t >>= f) (CheckM.display t >>= g) R :=
  fun s s' hst => h _ _ s s' hst

theorem stamp_bind {f g : Stamp → CheckM β} (h : ∀ a b, P.Matching a b → Parallel c P spine (f a) (g b) R) :
    Parallel c P spine (stamp >>= f) (stamp >>= g) R := by
  intro s t hst
  refine h ⟨s.scopes.current, s.scopes.generation, s.arena.generation⟩
    ⟨t.scopes.current, t.scopes.generation, t.arena.generation⟩ ⟨?_, ?_, ?_, ?_, ?_⟩ s t hst
  · rw [hst.scopes.left.current]
    exact Nat.le_add_right _ _
  · rw [hst.scopes.left.current, hst.scopes.right.current]
    simp only
    omega
  · exact hst.scopes.generation
  · rw [hst.left]
  · rw [hst.right]

theorem hint? (e : Expr) :
    Parallel c P spine (CheckM.hint? e) (CheckM.hint? e) fun hint =>
      ∀ found ∈ hint, c.hints.get? e.span = some found := by
  refine .read_bind (.pure fun found hfound => ?_)
  split at hfound
  · exact hfound
  · exact absurd hfound (Option.not_mem_none _)

theorem confidenceOf (e : Expr) :
    Parallel c P spine (CheckM.confidenceOf e) (CheckM.confidenceOf e) fun _ => True := by
  refine (hint? e).bind fun hint _ => ?_
  cases hint with
  | none => exact .read_bind (.pure trivial)
  | some found => exact .pure trivial

section Names

variable {name : String} (hname : P.own name) {value : Ty} (hvalue : value.Closed) (confidence : Float)
include hname hvalue

theorem setName :
    Parallel c P spine (CheckM.modifyScopes (·.set name value confidence))
      (CheckM.modifyScopes (·.set name value confidence)) fun _ => True :=
  modifyScopes fun _ _ hst => hst.set hname hvalue confidence

theorem bindName :
    Parallel c P spine (CheckM.bindName name value confidence) (CheckM.bindName name value confidence)
      fun _ => True := by
  refine getScopes_bind fun s t hst => getArena_bind ?_
  refine (modifyScopes fun _ _ _ => hst.add hname hvalue confidence _ _).bind fun _ _ => ?_
  exact reportAll _ _

end Names

theorem readAttribute {t : Ty} (ht : t.Closed) (name : String) (confidence : Float) :
    Parallel c P spine (CheckM.readAttribute t name confidence) (CheckM.readAttribute t name confidence)
      Ty.Closed := by
  refine getArena_bind ?_
  obtain ⟨hsame, hclosed⟩ := Arena.readAttribute_type_of_closed ht P.left.arena P.right.arena name confidence
  refine (modifyArena ?_ ?_).bind fun _ _ => (reportAll _ _).bind fun _ _ => ?_
  · exact Arena.readAttribute_arena_of_closed ht _ name confidence
  · exact Arena.readAttribute_arena_of_closed ht _ name confidence
  · rw [hsame]
    exact .pure hclosed

theorem agrees_ensuring {rest : List Nat} {s t : Session} {f g : Session → Session}
    (h : P.Agrees rest Q (x.outcome c s) (y.outcome c t))
    (hf : ∀ s t, P.Twin rest s t → P.Twin spine (f s) (g t)) :
    P.Agrees spine Q ((ensuring x (modify f)).outcome c s) ((ensuring y (modify g)).outcome c t) := by
  rw [outcome_ensuring, outcome_ensuring, outcome_modify, outcome_modify, andThen_ok, andThen_ok]
  revert h
  generalize x.outcome c s = o
  generalize y.outcome c t = o'
  rintro (⟨hr, h⟩ | h | _ | _)
  · exact .ok hr (hf _ _ h)
  · exact .fault (hf _ _ h)
  · exact .left
  · exact .right

theorem outcome_inScope (name : String) (x : CheckM α) (s : Session) :
    (CheckM.inScope name x).outcome c s =
      (ensuring x (modify fun s => { s with scopes := s.scopes.exit })).outcome c
        { s with scopes := (s.scopes.enter name).2 } :=
  rfl

theorem outcome_inBranch (name : String) (x : CheckM Unit) (s : Session) :
    (CheckM.inBranch name x).outcome c s =
      (ensuring x (modify fun s => { s with scopes := s.scopes.exitBranch s.arena })).outcome c
        { s with scopes := (s.scopes.enter name).2 } :=
  rfl

theorem inScope {name : String} (h : ∀ d, Parallel c P (d :: spine) x y Q) :
    Parallel c P spine (CheckM.inScope name x) (CheckM.inScope name y) Q := by
  intro s t hst
  rw [outcome_inScope, outcome_inScope]
  refine agrees_ensuring (h (s.scopes.all.size - P.left.base) _ _ ?_) fun s t hst => ?_
  · exact { hst with scopes := hst.scopes.enter name }
  · exact { hst with scopes := hst.scopes.exit }

theorem inBranch {name : String} {x y : CheckM Unit} (h : ∀ d, Parallel c P (d :: spine) x y fun _ => True) :
    Parallel c P spine (CheckM.inBranch name x) (CheckM.inBranch name y) fun _ => True := by
  intro s t hst
  rw [outcome_inBranch, outcome_inBranch]
  refine agrees_ensuring (h (s.scopes.all.size - P.left.base) _ _ ?_) fun s t hst => ?_
  · exact { hst with scopes := hst.scopes.enter name }
  · exact { hst with scopes := hst.scopes.exitBranch s.arena t.arena }

theorem suppressing {kinds : List DiagnosticKind} {x y : CheckM Unit}
    (h : Parallel c P spine x y fun _ => True) :
    Parallel c P spine (CheckM.suppressing kinds x) (CheckM.suppressing kinds y) fun _ => True := by
  refine (modifyHub _ _).bind fun _ _ s t hst => ?_
  exact agrees_ensuring (h s t hst) fun _ _ h => { h with }

end Check.Parallel

end Credence

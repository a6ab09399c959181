import Credence.Proofs.Outcome

namespace Credence

open CheckM

structure Discipline where
  inv : Session → Prop
  le : Session → Session → Prop
  stop : Stop → Prop
  le_refl : ∀ s, le s s
  le_trans : ∀ {s t u}, le s t → le t u → le s u

namespace Discipline

variable {α β : Type} (D : Discipline) (c : Context)

/-- A session that may follow another. -/
def Moves (s t : Session) : Prop :=
  D.inv t ∧ D.le s t

/-- The steps have the same outcome from a session on, and it follows an earlier session. -/
structure Ends (x y : CheckM α) (origin s : Session) : Prop where
  same : x.outcome c s = y.outcome c s
  moves : D.Moves origin (x.outcome c s).2
  stop : ∀ e, (x.outcome c s).1 = .error e → D.stop e

abbrev Runs (x y : CheckM α) (s : Session) : Prop :=
  D.Ends c x y s s

/-- The steps keep the discipline together wherever they start under it. -/
def Holds (x y : CheckM α) : Prop :=
  ∀ s, D.inv s → D.Runs c x y s

variable {D c}

theorem Moves.refl {s : Session} (h : D.inv s) : D.Moves s s :=
  ⟨h, D.le_refl s⟩

theorem Moves.trans {s t u : Session} (h : D.Moves s t) (k : D.Moves t u) : D.Moves s u :=
  ⟨k.1, D.le_trans h.2 k.2⟩

theorem Ends.of_ok {x : CheckM α} {origin s t : Session} {a : α}
    (hx : x.outcome c s = (.ok a, t)) (h : D.Moves origin t) : D.Ends c x x origin s where
  same := rfl
  moves := by rwa [hx]
  stop e he := by rw [hx] at he; cases he

theorem Ends.of_error {x : CheckM α} {origin s t : Session} {e : Stop}
    (hx : x.outcome c s = (.error e, t)) (h : D.Moves origin t) (he : D.stop e) :
    D.Ends c x x origin s where
  same := rfl
  moves := by rwa [hx]
  stop d hd := by rw [hx] at hd; cases hd; exact he

protected theorem Ends.bind {x y : CheckM α} {f g : α → CheckM β} {origin s : Session}
    (hx : D.Ends c x y origin s)
    (hf : ∀ a t, x.outcome c s = (.ok a, t) → D.inv t → D.Runs c (f a) (g a) t) :
    D.Ends c (x >>= f) (y >>= g) origin s := by
  have hsame := hx.same
  have hmoves := hx.moves
  have hstop := hx.stop
  rcases ho : x.outcome c s with ⟨result, t⟩
  rw [ho] at hsame hmoves hstop
  cases result with
  | error e =>
    have h : (x >>= f).outcome c s = (.error e, t) := by rw [outcome_bind, ho, andThen_error]
    refine ⟨?_, ?_, ?_⟩
    · rw [h, outcome_bind, ← hsame, andThen_error]
    · rwa [h]
    · intro stop he
      rw [h] at he
      cases he
      exact hstop e rfl
  | ok a =>
    have h : (x >>= f).outcome c s = (f a).outcome c t := by rw [outcome_bind, ho, andThen_ok]
    have hrest := hf a t ho hmoves.1
    refine ⟨?_, ?_, ?_⟩
    · rw [h, outcome_bind, ← hsame, andThen_ok]
      exact hrest.same
    · rw [h]
      exact hmoves.trans hrest.moves
    · rw [h]
      exact hrest.stop

protected theorem Holds.pure (a : α) : D.Holds c (pure a) (pure a) :=
  fun s hs => .of_ok (outcome_pure c s a) (.refl hs)

protected theorem Holds.bind {x y : CheckM α} {f g : α → CheckM β} (hx : D.Holds c x y)
    (hf : ∀ a, D.Holds c (f a) (g a)) : D.Holds c (x >>= f) (y >>= g) :=
  fun s hs => (hx s hs).bind fun a t _ ht => hf a t ht

protected theorem Holds.map {x y : CheckM α} (f : α → β) (hx : D.Holds c x y) :
    D.Holds c (f <$> x) (f <$> y) := by
  rw [← bind_pure_comp, ← bind_pure_comp]
  exact hx.bind fun a => .pure (f a)

protected theorem Holds.throw {e : Stop} (he : D.stop e) :
    D.Holds c (throw e : CheckM α) (throw e) :=
  fun s hs => .of_error (outcome_throw c s e) (.refl hs) he

protected theorem Holds.get : D.Holds c (get : CheckM Session) get :=
  fun s hs => .of_ok (outcome_get c s) (.refl hs)

protected theorem Holds.read : D.Holds c (read : CheckM Context) read :=
  fun s hs => .of_ok (outcome_read c s) (.refl hs)

protected theorem Holds.modify {f : Session → Session} (h : ∀ s, D.inv s → D.Moves s (f s)) :
    D.Holds c (modify f : CheckM PUnit) (modify f) :=
  fun s hs => .of_ok (outcome_modify c s f) (h s hs)

protected theorem Holds.modifyGet {f : Session → α × Session}
    (h : ∀ s, D.inv s → D.Moves s (f s).2) :
    D.Holds c (modifyGet f : CheckM α) (modifyGet f) :=
  fun s hs => .of_ok (outcome_modifyGet c s f) (h s hs)

theorem Ends.get_bind {f g : Session → CheckM β} {s : Session} (h : D.Runs c (f s) (g s) s) :
    D.Runs c (get >>= f) (get >>= g) s :=
  ⟨h.same, h.moves, h.stop⟩

protected theorem Holds.get_bind {f g : Session → CheckM β}
    (h : ∀ s, D.inv s → D.Runs c (f s) (g s) s) : D.Holds c (get >>= f) (get >>= g) :=
  fun s hs => .get_bind (h s hs)

protected theorem Holds.read_bind {f g : Context → CheckM β} (h : D.Holds c (f c) (g c)) :
    D.Holds c (read >>= f) (read >>= g) :=
  fun s hs => ⟨(h s hs).same, (h s hs).moves, (h s hs).stop⟩

protected theorem Ends.attempt {x y : CheckM α} {origin s : Session} (h : D.Ends c x y origin s) :
    D.Ends c (attempt x) (attempt y) origin s := by
  refine ⟨?_, ?_, ?_⟩
  · rw [outcome_attempt, outcome_attempt, h.same]
  · rw [outcome_attempt]
    exact h.moves
  · intro e he
    rw [outcome_attempt] at he
    cases he

protected theorem Holds.attempt {x y : CheckM α} (hx : D.Holds c x y) :
    D.Holds c (attempt x) (attempt y) :=
  fun s hs => (hx s hs).attempt

theorem Ends.after {x : CheckM α} {f g : α → CheckM β} {origin s t : Session} {a : α}
    (hx : x.outcome c s = (.ok a, t)) (h : D.Ends c (f a) (g a) origin t) :
    D.Ends c (x >>= f) (x >>= g) origin s := by
  have hf : (x >>= f).outcome c s = (f a).outcome c t := by rw [outcome_bind, hx, andThen_ok]
  have hg : (x >>= g).outcome c s = (g a).outcome c t := by rw [outcome_bind, hx, andThen_ok]
  refine ⟨?_, ?_, ?_⟩
  · rw [hf, hg, h.same]
  · rw [hf]
    exact h.moves
  · rw [hf]
    exact h.stop

/-- What is done after a step is done after its stop too. -/
protected theorem Ends.ensuring {x y : CheckM α} {f : Session → Session} {origin s : Session}
    (h : D.Runs c x y s) (moves : D.Moves origin (f (x.outcome c s).2)) :
    D.Ends c (ensuring x (modify f)) (ensuring y (modify f)) origin s := by
  have hx : (ensuring x (modify f)).outcome c s =
      ((x.outcome c s).1, f (x.outcome c s).2) := by
    rw [outcome_ensuring, outcome_modify, andThen_ok]
    cases (x.outcome c s).1 <;> rfl
  refine ⟨?_, ?_, ?_⟩
  · rw [outcome_ensuring, outcome_ensuring, h.same]
  · rwa [hx]
  · rw [hx]
    exact h.stop

protected theorem Holds.forIn {xs : List α} {b : β} {f g : α → β → CheckM (ForInStep β)}
    (h : ∀ a ∈ xs, ∀ b, D.Holds c (f a b) (g a b)) : D.Holds c (forIn xs b f) (forIn xs b g) := by
  induction xs generalizing b with
  | nil => exact .pure b
  | cons a rest ih =>
    rw [List.forIn_cons, List.forIn_cons]
    refine (h a (by simp) b).bind fun step => ?_
    cases step with
    | done b => exact .pure b
    | yield b => exact ih fun x hx => h x (by simp [hx])

protected theorem Holds.forM {xs : List α} {f g : α → CheckM PUnit}
    (h : ∀ a ∈ xs, D.Holds c (f a) (g a)) : D.Holds c (xs.forM f) (xs.forM g) := by
  induction xs with
  | nil => exact .pure _
  | cons a rest ih =>
    exact (h a (by simp)).bind fun _ => ih fun x hx => h x (by simp [hx])

protected theorem Holds.foldlM {xs : List α} {b : β} {f g : β → α → CheckM β}
    (h : ∀ a ∈ xs, ∀ b, D.Holds c (f b a) (g b a)) :
    D.Holds c (xs.foldlM f b) (xs.foldlM g b) := by
  induction xs generalizing b with
  | nil => exact .pure b
  | cons a rest ih =>
    rw [List.foldlM_cons, List.foldlM_cons]
    exact (h a (by simp) b).bind fun b => ih fun x hx => h x (by simp [hx])

protected theorem Holds.mapM {xs : List α} {f g : α → CheckM β}
    (h : ∀ a ∈ xs, D.Holds c (f a) (g a)) : D.Holds c (xs.mapM f) (xs.mapM g) := by
  induction xs with
  | nil => exact .pure _
  | cons a rest ih =>
    rw [List.mapM_cons, List.mapM_cons]
    refine (h a (by simp)).bind fun b => ?_
    exact (ih fun x hx => h x (by simp [hx])).bind fun bs => .pure _

theorem Holds.optionMapM {o : Option α} {f g : α → CheckM β}
    (h : ∀ a ∈ o, D.Holds c (f a) (g a)) : D.Holds c (o.mapM f) (o.mapM g) := by
  cases o with
  | none => exact .pure _
  | some a => exact (h a rfl).map some

end Discipline

end Credence

import Credence.Check.Run

namespace Credence.CheckM

variable {α β : Type}

/-- What a step gives from a session. -/
def outcome (x : CheckM α) (c : Context) (s : Session) : Except Stop α × Session :=
  (x c).run s

/-- A step after the outcome of another. A stop passes it over. -/
def andThen (o : Except Stop α × Session) (c : Context) (f : α → CheckM β) :
    Except Stop β × Session :=
  match o with
  | (.ok a, s) => (f a).outcome c s
  | (.error stop, s) => (.error stop, s)

variable (c : Context) (s : Session)

@[simp]
theorem outcome_pure (a : α) : (pure a : CheckM α).outcome c s = (.ok a, s) :=
  rfl

@[simp]
theorem outcome_bind (x : CheckM α) (f : α → CheckM β) :
    (x >>= f).outcome c s = andThen (x.outcome c s) c f := by
  change (match x.outcome c s with | (r, t) => (ExceptT.bindCont (f · c) r).run t) = _
  rcases x.outcome c s with ⟨result, t⟩
  cases result <;> rfl

@[simp]
theorem outcome_map (f : α → β) (x : CheckM α) :
    (f <$> x).outcome c s = andThen (x.outcome c s) c fun a => pure (f a) := by
  rw [← bind_pure_comp, outcome_bind]

@[simp]
theorem outcome_throw (stop : Stop) : (throw stop : CheckM α).outcome c s = (.error stop, s) :=
  rfl

@[simp]
theorem outcome_get : (get : CheckM Session).outcome c s = (.ok s, s) :=
  rfl

@[simp]
theorem outcome_set (t : Session) : (set t : CheckM PUnit).outcome c s = (.ok ⟨⟩, t) :=
  rfl

@[simp]
theorem outcome_modify (f : Session → Session) :
    (modify f : CheckM PUnit).outcome c s = (.ok ⟨⟩, f s) :=
  rfl

@[simp]
theorem outcome_modifyGet (f : Session → α × Session) :
    (modifyGet f : CheckM α).outcome c s = (.ok (f s).1, (f s).2) :=
  rfl

@[simp]
theorem outcome_read : (read : CheckM Context).outcome c s = (.ok c, s) :=
  rfl

@[simp]
theorem outcome_attempt (x : CheckM α) :
    (attempt x).outcome c s = (.ok (x.outcome c s).1, (x.outcome c s).2) :=
  rfl

theorem outcome_ensuring (x : CheckM α) (after : CheckM Unit) :
    (ensuring x after).outcome c s =
      andThen (after.outcome c (x.outcome c s).2) c fun _ =>
        match (x.outcome c s).1 with
        | .ok a => pure a
        | .error stop => throw stop := by
  rw [ensuring, outcome_bind, outcome_attempt]
  exact outcome_bind c _ after _

@[simp]
theorem andThen_ok (a : α) (f : α → CheckM β) : andThen (.ok a, s) c f = (f a).outcome c s :=
  rfl

@[simp]
theorem andThen_error (stop : Stop) (f : α → CheckM β) :
    andThen (.error stop, s) c f = (.error stop, s) :=
  rfl

end Credence.CheckM

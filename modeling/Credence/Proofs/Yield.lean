import Credence.Proofs.Discipline

namespace Credence

open CheckM

namespace Discipline

variable {α β : Type}

/-- The steps keep the discipline together from a session on, and their result has a property. -/
structure Yields (D : Discipline) (c : Context) (x y : CheckM α) (s : Session)
    (Q : Session → α → Prop) : Prop extends D.Ends c x y s s where
  result : ∀ a t, x.outcome c s = (.ok a, t) → Q t a

variable {D : Discipline} {c : Context} {s t : Session}

namespace Yields

variable {x y : CheckM α} {Q Q' : Session → α → Prop}

theorem imp (h : D.Yields c x y s Q) (himp : ∀ a t, D.Moves s t → Q t a → Q' t a) :
    D.Yields c x y s Q' where
  toEnds := h.toEnds
  result a t ht := by
    have hmoves := h.moves
    rw [ht] at hmoves
    exact himp a t hmoves (h.result a t ht)

theorem of_ok {a : α} (hx : x.outcome c s = (.ok a, t)) (h : D.Moves s t) (hQ : Q t a) :
    D.Yields c x x s Q where
  toEnds := .of_ok hx h
  result b u hu := by
    rw [hx] at hu
    cases hu
    exact hQ

theorem of_error {e : Stop} (hx : x.outcome c s = (.error e, t)) (h : D.Moves s t) (he : D.stop e) :
    D.Yields c x x s Q where
  toEnds := .of_error hx h he
  result b u hu := by
    rw [hx] at hu
    cases hu

protected theorem pure {a : α} (hs : D.inv s) (h : Q s a) : D.Yields c (pure a) (pure a) s Q :=
  of_ok (outcome_pure c s a) (.refl hs) h

protected theorem throw {e : Stop} (hs : D.inv s) (he : D.stop e) :
    D.Yields c (throw e : CheckM α) (throw e) s Q :=
  of_error (outcome_throw c s e) (.refl hs) he

/-- What comes after a step may rely on the session that it leads to and on its result. -/
protected theorem bind {f g : α → CheckM β} {R : Session → β → Prop} (hx : D.Yields c x y s Q)
    (hf : ∀ a t, D.Moves s t → Q t a → D.Yields c (f a) (g a) t R) :
    D.Yields c (x >>= f) (y >>= g) s R := by
  have hmoves := hx.moves
  have hresult := hx.result
  refine ⟨hx.toEnds.bind fun a t ht _ => ?_, fun b u hu => ?_⟩
  · rw [ht] at hmoves
    exact (hf a t hmoves (hresult a t ht)).toEnds
  · rcases ho : x.outcome c s with ⟨e | a, t⟩
    · rw [outcome_bind, ho, andThen_error] at hu
      cases hu
    · rw [outcome_bind, ho, andThen_ok] at hu
      rw [ho] at hmoves
      exact (hf a t hmoves (hresult a t ho)).result b u hu

protected theorem map {f : α → β} {R : Session → β → Prop} (hx : D.Yields c x y s Q)
    (hf : ∀ a t, D.Moves s t → Q t a → R t (f a)) : D.Yields c (f <$> x) (f <$> y) s R := by
  rw [← bind_pure_comp, ← bind_pure_comp]
  exact hx.bind fun a t hst ha => .pure hst.1 (hf a t hst ha)

protected theorem get_bind {f g : Session → CheckM β} {R : Session → β → Prop}
    (h : D.Yields c (f s) (g s) s R) : D.Yields c (get >>= f) (get >>= g) s R :=
  ⟨.get_bind h.toEnds, h.result⟩

protected theorem read_bind {f g : Context → CheckM β} {R : Session → β → Prop}
    (h : D.Yields c (f c) (g c) s R) : D.Yields c (read >>= f) (read >>= g) s R :=
  ⟨⟨h.same, h.moves, h.stop⟩, h.result⟩

protected theorem modify {f : Session → Session} {R : Session → PUnit → Prop}
    (h : D.Moves s (f s)) (hR : R (f s) ⟨⟩) :
    D.Yields c (modify f : CheckM PUnit) (modify f) s R :=
  of_ok (outcome_modify c s f) h hR

protected theorem modifyGet {f : Session → α × Session} (h : D.Moves s (f s).2)
    (hQ : Q (f s).2 (f s).1) : D.Yields c (modifyGet f : CheckM α) (modifyGet f) s Q :=
  of_ok (outcome_modifyGet c s f) h hQ

protected theorem attempt (h : D.Yields c x y s Q) :
    D.Yields c (attempt x) (attempt y) s fun _ _ => True :=
  ⟨h.toEnds.attempt, fun _ _ _ => trivial⟩

protected theorem ensuring {f : Session → Session} (h : D.Yields c x y s Q)
    (moves : ∀ t, D.Moves s t → D.Moves s (f t))
    (hf : ∀ a t, D.Moves s t → Q t a → Q' (f t) a) :
    D.Yields c (ensuring x (modify f)) (ensuring y (modify f)) s Q' where
  toEnds := .ensuring h.toEnds (moves _ h.moves)
  result a t ht := by
    have hmoves := h.moves
    have hresult := h.result
    rw [outcome_ensuring, outcome_modify, andThen_ok] at ht
    rcases ho : x.outcome c s with ⟨e | b, u⟩
    · rw [ho] at ht
      cases ht
    · rw [ho] at ht hmoves
      cases ht
      exact hf a u hmoves (hresult a u ho)

protected theorem forIn {xs : List α} {f g : α → PUnit → CheckM (ForInStep PUnit)} (hs : D.inv s)
    (h : ∀ a ∈ xs, ∀ t, D.Moves s t → D.Yields c (f a ⟨⟩) (g a ⟨⟩) t fun _ _ => True) :
    D.Yields c (forIn xs PUnit.unit f) (forIn xs PUnit.unit g) s fun _ _ => True := by
  induction xs generalizing s with
  | nil => exact .pure hs trivial
  | cons a rest ih =>
    rw [List.forIn_cons, List.forIn_cons]
    refine Yields.bind (h a List.mem_cons_self s (.refl hs)) fun step t hst _ => ?_
    cases step with
    | done _ => exact .pure hst.1 trivial
    | yield _ => exact ih hst.1 fun b hb u htu => h b (List.mem_cons_of_mem _ hb) u (hst.trans htu)

protected theorem forM {xs : List α} {f g : α → CheckM PUnit} (hs : D.inv s)
    (h : ∀ a ∈ xs, ∀ t, D.Moves s t → D.Yields c (f a) (g a) t fun _ _ => True) :
    D.Yields c (xs.forM f) (xs.forM g) s fun _ _ => True := by
  induction xs generalizing s with
  | nil => exact .pure hs trivial
  | cons a rest ih =>
    refine Yields.bind (h a List.mem_cons_self s (.refl hs)) fun _ t hst _ => ?_
    exact ih hst.1 fun b hb u htu => h b (List.mem_cons_of_mem _ hb) u (hst.trans htu)

protected theorem foldlM {xs : List α} {b : β} {f g : β → α → CheckM β} {R : Session → β → Prop}
    (hs : D.inv s) (hb : R s b)
    (h : ∀ a ∈ xs, ∀ b t, D.Moves s t → R t b → D.Yields c (f b a) (g b a) t R) :
    D.Yields c (xs.foldlM f b) (xs.foldlM g b) s R := by
  induction xs generalizing s b with
  | nil => exact .pure hs hb
  | cons a rest ih =>
    rw [List.foldlM_cons, List.foldlM_cons]
    refine Yields.bind (h a List.mem_cons_self b s (.refl hs) hb) fun b t hst hb => ?_
    exact ih hst.1 hb fun a ha b u htu => h a (List.mem_cons_of_mem _ ha) b u (hst.trans htu)

/-- A property that results keep as the session goes on. -/
def Lasting (D : Discipline) (R : Session → β → Prop) : Prop :=
  ∀ ⦃s t : Session⦄, D.Moves s t → ∀ ⦃b : β⦄, R s b → R t b

protected theorem mapM {xs : List α} {f g : α → CheckM β} {R : Session → β → Prop}
    (hs : D.inv s) (hR : Lasting D R)
    (h : ∀ a ∈ xs, ∀ t, D.Moves s t → D.Yields c (f a) (g a) t R) :
    D.Yields c (xs.mapM f) (xs.mapM g) s fun t bs => ∀ b ∈ bs, R t b := by
  induction xs generalizing s with
  | nil => exact .pure hs fun _ hb => absurd hb List.not_mem_nil
  | cons a rest ih =>
    rw [List.mapM_cons, List.mapM_cons]
    refine Yields.bind (h a List.mem_cons_self s (.refl hs)) fun b t hst hb => ?_
    have hrest := ih hst.1 fun b hb u htu => h b (List.mem_cons_of_mem _ hb) u (hst.trans htu)
    refine hrest.bind fun bs u htu hbs => .pure htu.1 ?_
    exact List.forall_mem_cons.2 ⟨hR htu hb, hbs⟩

theorem optionMapM {o : Option α} {f g : α → CheckM β} {R : Session → β → Prop} (hs : D.inv s)
    (h : ∀ a ∈ o, D.Yields c (f a) (g a) s R) :
    D.Yields c (o.mapM f) (o.mapM g) s fun t r => ∀ b ∈ r, R t b := by
  cases o with
  | none => exact .pure hs fun _ hb => absurd hb (Option.not_mem_none _)
  | some a => exact Yields.map (h a rfl) fun b t _ hb r hr => Option.mem_some.1 hr ▸ hb

end Yields

end Discipline

end Credence

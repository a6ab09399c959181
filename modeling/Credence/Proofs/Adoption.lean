import Mathlib.Data.List.Nodup
import Mathlib.Data.List.Perm.Subperm
import Credence.Proofs.Extension

namespace Credence

namespace World

def entries (w : World) : List Entry :=
  (List.range w.arena.classes.size).map (.cls ⟨·⟩) ++
    (List.range w.arena.objects.size).map (.object ⟨·⟩) ++
    (List.range w.arena.functions.size).map (.function ⟨·⟩) ++
    (List.range w.arena.modules.size).map (.module ⟨·⟩) ++
    (List.range w.scopes.all.size).map (.scope ⟨·⟩)

theorem length_entries (w : World) : w.entries.length = w.entryCount := by
  simp [entries, entryCount]
  omega

theorem mem_entries {w : World} {e : Entry} (h : w.Contains e) : e ∈ w.entries := by
  simp only [entries, List.mem_append, List.mem_map, List.mem_range]
  cases e with
  | cls id => exact .inl (.inl (.inl (.inl ⟨id.val, h, rfl⟩)))
  | object id => exact .inl (.inl (.inl (.inr ⟨id.val, h, rfl⟩)))
  | function id => exact .inl (.inl (.inr ⟨id.val, h, rfl⟩))
  | module id => exact .inl (.inr ⟨id.val, h, rfl⟩)
  | scope id => exact .inr ⟨id.val, h, rfl⟩

/-- No class is among its own direct and indirect bases. -/
def Grounded (w : World) (P : Entry → Prop) : Prop :=
  ∀ id, P (.cls id) → ¬w.Inherits id id

end World

namespace Adoption

open Classical in
/-- How many entries have no copy yet. -/
noncomputable def missing (w : World) (a : Adoption) : Nat :=
  w.entries.countP fun e => decide (¬∃ f, a.Pairs e f)

variable {w : World} {P : Entry → Prop}

theorem missing_le_entryCount (w : World) (a : Adoption) : a.missing w ≤ w.entryCount := by
  rw [← w.length_entries]
  exact List.countP_le_length

theorem missing_mono {a b : Adoption} (h : ∀ {e f : Entry}, a.Pairs e f → b.Pairs e f) :
    b.missing w ≤ a.missing w := by
  refine List.countP_mono_left fun e _ hb => ?_
  simp only [decide_eq_true_eq] at hb ⊢
  rintro ⟨f, hf⟩
  exact hb ⟨f, h hf⟩

theorem missing_lt {a b : Adoption} {e f : Entry}
    (h : ∀ {e f : Entry}, a.Pairs e f → b.Pairs e f) (he : w.Contains e)
    (hnew : ∀ {g : Entry}, ¬a.Pairs e g) (hcopy : b.Pairs e f) : b.missing w < a.missing w := by
  refine Arena.countP_lt_of_mem (x := e) ?_ (World.mem_entries he) ?_ ?_
  · intro d hd
    simp only [decide_eq_true_eq] at hd ⊢
    rintro ⟨g, hg⟩
    exact hd ⟨g, h hg⟩
  · simp only [decide_eq_true_eq, not_not]
    exact ⟨f, hcopy⟩
  · simp only [decide_eq_true_eq]
    rintro ⟨g, hg⟩
    exact hnew hg

/-- Fuel for what an entry leads to. -/
def Ready (w : World) (a : Adoption) (n : Nat) : Prop :=
  a.missing w * (w.arena.classes.size + 4) + w.arena.classes.size + 3 ≤ n

/-- Classes that wait for a base. -/
structure Waiting (w : World) (waiting : List ClassId) (base : ClassId) : Prop where
  nodup : waiting.Nodup
  inRange : ∀ id ∈ waiting, id.val < w.arena.classes.size
  inherits : ∀ id ∈ waiting, w.Inherits id base

def Live (w : World) (a : Adoption) (n : Nat) : Entry → Prop
  | .cls id => ∃ waiting, Waiting w waiting id ∧
    a.missing w * (w.arena.classes.size + 4) + (w.arena.classes.size - waiting.length) + 1 ≤ n
  | .object _ => a.missing w * (w.arena.classes.size + 4) + w.arena.classes.size + 2 ≤ n
  | .function _ => a.missing w * (w.arena.classes.size + 4) + 3 ≤ n
  | .module _ | .scope _ => a.missing w * (w.arena.classes.size + 4) + 2 ≤ n

theorem Ready.mono {a b : Adoption} {n : Nat} (h : a.Ready w n)
    (hp : ∀ {e f : Entry}, a.Pairs e f → b.Pairs e f) : b.Ready w n := by
  have := Nat.mul_le_mul_right (w.arena.classes.size + 4) (missing_mono (w := w) hp)
  unfold Ready at *
  omega

theorem Ready.live {a : Adoption} {n : Nat} (h : a.Ready w n) (e : Entry) : a.Live w n e := by
  unfold Ready at h
  cases e with
  | cls id =>
    refine ⟨[], ⟨List.nodup_nil, by simp, by simp⟩, ?_⟩
    simp only [List.length_nil]
    omega
  | _ =>
    simp only [Live]
    omega

theorem Waiting.length_le {waiting : List ClassId} {base : ClassId} (h : Waiting w waiting base) :
    waiting.length ≤ w.arena.classes.size := by
  have hsub : waiting.map ClassId.val ⊆ List.range w.arena.classes.size := by
    intro i hi
    obtain ⟨id, hid, rfl⟩ := List.mem_map.1 hi
    exact List.mem_range.2 (h.inRange id hid)
  have hnodup : (waiting.map ClassId.val).Nodup := by
    refine List.Nodup.map ?_ h.nodup
    rintro ⟨i⟩ ⟨j⟩ hij
    exact congrArg ClassId.mk hij
  simpa using (List.subperm_of_subset hnodup hsub).length_le

theorem Waiting.cons {waiting : List ClassId} {id base : ClassId} (h : Waiting w waiting id)
    (hself : ¬w.Inherits id id) (hbase : base ∈ (w.arena.classAt id).bases) :
    Waiting w (id :: waiting) base where
  nodup := List.nodup_cons.2 ⟨fun hm => hself (h.inherits id hm), h.nodup⟩
  inRange d hd := by
    rcases List.mem_cons.1 hd with rfl | hd
    · by_contra hlt
      rw [Arena.bases_of_size_le (Nat.le_of_not_lt hlt)] at hbase
      cases hbase
    · exact h.inRange d hd
  inherits d hd := by
    rcases List.mem_cons.1 hd with rfl | hd
    · exact .single hbase
    · exact (h.inherits d hd).tail hbase

theorem Live.base {a b : Adoption} {n : Nat} {id base : ClassId} (h : a.Live w (n + 1) (.cls id))
    (hp : ∀ {e f : Entry}, a.Pairs e f → b.Pairs e f) (hself : ¬w.Inherits id id)
    (hbase : base ∈ (w.arena.classAt id).bases) : b.Live w n (.cls base) := by
  obtain ⟨waiting, hw, hn⟩ := h
  refine ⟨id :: waiting, hw.cons hself hbase, ?_⟩
  have := (hw.cons hself hbase).length_le
  have := Nat.mul_le_mul_right (w.arena.classes.size + 4) (missing_mono (w := w) hp)
  simp only [List.length_cons] at *
  omega

theorem Live.captured {a b : Adoption} {n : Nat} {id : FunctionId} {scope : ScopeId}
    (h : a.Live w (n + 1) (.function id)) (hp : ∀ {e f : Entry}, a.Pairs e f → b.Pairs e f) :
    b.Live w n (.scope scope) := by
  have := Nat.mul_le_mul_right (w.arena.classes.size + 4) (missing_mono (w := w) hp)
  simp only [Live] at *
  omega

theorem Live.ready {a b : Adoption} {n : Nat} {e f : Entry} (h : a.Live w (n + 1) e)
    (hp : ∀ {e f : Entry}, a.Pairs e f → b.Pairs e f) (he : w.Contains e)
    (hnew : ∀ {g : Entry}, ¬a.Pairs e g) (hcopy : b.Pairs e f) : b.Ready w n := by
  have hlt := missing_lt hp he hnew hcopy
  have hmul : (b.missing w + 1) * (w.arena.classes.size + 4) ≤
      a.missing w * (w.arena.classes.size + 4) := Nat.mul_le_mul_right _ hlt
  rw [Nat.add_mul] at hmul
  have hlive : a.missing w * (w.arena.classes.size + 4) + 1 ≤ n + 1 := by
    cases e with
    | cls id =>
      obtain ⟨waiting, -, hn⟩ := h
      omega
    | _ =>
      simp only [Live] at h
      omega
  unfold Ready
  omega

variable {α β : Type}

/-- A step gives results with a property, or else the fuel has run out. -/
def Gives (live : Prop) (x : AdoptM α) (a : Adoption) (Q : α → Adoption → Prop) : Prop :=
  match x.run a with
  | .ok (r, b) => Q r b
  | .error e => e = .exhausted ∧ ¬live

variable {live : Prop}

namespace Gives

theorem imp {x : AdoptM α} {a : Adoption} {Q Q' : α → Adoption → Prop} (h : Gives live x a Q)
    (himp : ∀ r b, Q r b → Q' r b) : Gives live x a Q' := by
  unfold Gives at *
  split at h
  · exact himp _ _ h
  · exact h

theorem of_live {more : Prop} {x : AdoptM α} {a : Adoption} {Q : α → Adoption → Prop}
    (h : Gives more x a Q) (himp : live → more) : Gives live x a Q := by
  unfold Gives at *
  split at h
  · exact h
  · exact ⟨h.1, fun hl => h.2 (himp hl)⟩

protected theorem pure {r : α} {a : Adoption} {Q : α → Adoption → Prop} (h : Q r a) :
    Gives live (pure r) a Q :=
  h

protected theorem bind {x : AdoptM α} {f : α → AdoptM β} {a : Adoption}
    {Q : α → Adoption → Prop} {Q' : β → Adoption → Prop} (hx : Gives live x a Q)
    (hf : ∀ r b, Q r b → Gives live (f r) b Q') : Gives live (x >>= f) a Q' := by
  unfold Gives at hx ⊢
  rw [StateT.run_bind]
  cases h : x.run a with
  | ok result =>
    rw [h] at hx
    exact hf _ _ hx
  | error e =>
    rw [h] at hx
    exact hx

protected theorem get_bind {f : Adoption → AdoptM β} {a : Adoption} {Q : β → Adoption → Prop}
    (h : Gives live (f a) a Q) : Gives live (get >>= f) a Q :=
  h

theorem modifyGet_bind {f : Adoption → α × Adoption} {g : α → AdoptM β} {a : Adoption}
    {Q : β → Adoption → Prop} (h : Gives live (g (f a).1) (f a).2 Q) :
    Gives live (modifyGet f >>= g) a Q :=
  h

theorem modify_bind {f : Adoption → Adoption} {g : PUnit → AdoptM β} {a : Adoption}
    {Q : β → Adoption → Prop} (h : Gives live (g ⟨⟩) (f a) Q) : Gives live (modify f >>= g) a Q :=
  h

end Gives

variable (w P) in
/-- A step copies something: it extends the adoption, and its result has a property that depends on
the copies that there are. -/
def Copying (live : Prop) (x : AdoptM α) (a : Adoption)
    (rel : (Entry → Entry → Prop) → α → Prop) : Prop :=
  a.Valid → Gives live x a fun r b => Extends w P a b ∧ rel b.Pairs r

namespace Copying

variable {a : Adoption}

protected theorem pure {r : α} {rel : (Entry → Entry → Prop) → α → Prop} (h : rel a.Pairs r) :
    Copying w P live (pure r) a rel :=
  fun _ => ⟨.refl a, h⟩

protected theorem bind {x : AdoptM α} {f : α → AdoptM β} {rel : (Entry → Entry → Prop) → α → Prop}
    {rel' : (Entry → Entry → Prop) → β → Prop} (hx : Copying w P live x a rel)
    (hf : ∀ r b, Extends w P a b → rel b.Pairs r → Copying w P live (f r) b rel') :
    Copying w P live (x >>= f) a rel' := by
  intro ha
  refine Gives.bind (hx ha) fun r b h => ?_
  refine Gives.imp (hf r b h.1 h.2 (h.1.valid ha)) fun s c k => ?_
  exact ⟨h.1.trans k.1, k.2⟩

protected theorem get_bind {f : Adoption → AdoptM β} {rel : (Entry → Entry → Prop) → β → Prop}
    (h : Copying w P live (f a) a rel) : Copying w P live (get >>= f) a rel :=
  h

theorem of_live {more : Prop} {x : AdoptM α} {rel : (Entry → Entry → Prop) → α → Prop}
    (h : Copying w P more x a rel) (himp : live → more) : Copying w P live x a rel :=
  fun ha => (h ha).of_live himp

/-- What holds of a result holds as more entries have copies. -/
def Monotone (rel : (Entry → Entry → Prop) → α → β → Prop) : Prop :=
  ∀ ⦃R S : Entry → Entry → Prop⦄, (∀ {e f : Entry}, R e f → S e f) →
    ∀ ⦃x : α⦄ ⦃y : β⦄, rel R x y → rel S x y

protected theorem mapM {xs : List α} {f : α → AdoptM β}
    {rel : (Entry → Entry → Prop) → α → β → Prop} (hrel : Monotone rel)
    (h : ∀ x ∈ xs, ∀ b, Extends w P a b → Copying w P live (f x) b fun R => rel R x) :
    Copying w P live (xs.mapM f) a fun R => List.Forall₂ (rel R) xs := by
  induction xs generalizing a with
  | nil => exact .pure .nil
  | cons x rest ih =>
    rw [List.mapM_cons]
    refine Copying.bind (h x (by simp) a (.refl a)) fun y b hb hy => ?_
    refine Copying.bind (ih fun z hz c hc => h z (by simp [hz]) c (hb.trans hc)) ?_
    intro ys c hc hys
    exact .pure (.cons (hrel hc.pairs hy) hys)

theorem optionMapM {o : Option α} {f : α → AdoptM β}
    {rel : (Entry → Entry → Prop) → α → β → Prop}
    (h : ∀ x, o = some x → Copying w P live (f x) a fun R => rel R x) :
    Copying w P live (o.mapM f) a fun R => Option.Rel (rel R) o := by
  cases o with
  | none => exact .pure .none
  | some x => exact Copying.bind (h x rfl) fun y b _ hy => .pure (.some hy)

theorem tableMapM {t : Table α} {f : α → AdoptM α} {rel : (Entry → Entry → Prop) → α → α → Prop}
    (hrel : Monotone rel)
    (h : ∀ entry ∈ t.entries, ∀ b, Extends w P a b →
      Copying w P live (f entry.2) b fun R => rel R entry.2) :
    Copying w P live (t.mapM f) a fun R => t.Copied (rel R) := by
  have hentry : Monotone fun R (x y : String × α) => x.1 = y.1 ∧ rel R x.2 y.2 :=
    fun _ _ hRS _ _ hxy => ⟨hxy.1, hrel hRS hxy.2⟩
  refine Copying.bind (Copying.mapM hentry fun entry hm b hb => ?_) fun entries b _ hb => .pure hb
  exact Copying.bind (h entry hm b hb) fun y c _ hy => .pure ⟨rfl, hy⟩

theorem of_opens_fresh (mk : α → Entry) {x : AdoptM α} {b : Adoption} {e : Entry} {copy : α}
    (ho : Opens a e (mk copy) b) (he : P e)
    (hnew : (e.IsObject → w.Apart P) → ∀ {g : Entry}, ¬a.Pairs e g)
    (hx : Gives live x b fun r d => r = copy ∧ ∃ c, Extends w P b c ∧ Fills c (mk copy) d ∧
      w.Matches d.target d.Pairs e (mk copy)) :
    Gives live x b fun r d =>
      (Extends w P a d ∧ d.Pairs e (mk r)) ∧ ¬a.target.Contains (mk r) := by
  refine hx.imp fun r d h => ?_
  obtain ⟨rfl, c, hc, hf, hm⟩ := h
  refine ⟨⟨.of_fills ho hc hf he hm hnew, ?_⟩, ho.fresh⟩
  exact hf.pairs.2 (hc.pairs (ho.pairs.2 (.inr ⟨rfl, rfl⟩)))

theorem of_opens (mk : α → Entry) {x : AdoptM α} {b : Adoption} {e : Entry} {copy : α}
    (ho : Opens a e (mk copy) b) (he : P e)
    (hnew : (e.IsObject → w.Apart P) → ∀ {g : Entry}, ¬a.Pairs e g)
    (hx : Gives live x b fun r d => r = copy ∧ ∃ c, Extends w P b c ∧ Fills c (mk copy) d ∧
      w.Matches d.target d.Pairs e (mk copy)) :
    Gives live x b fun r d => Extends w P a d ∧ d.Pairs e (mk r) :=
  (of_opens_fresh mk ho he hnew hx).imp fun _ _ h => h.1

end Copying

end Adoption

end Credence

import Credence.Proofs.Graph

namespace Credence

def Entry.IsObject : Entry → Prop
  | .object _ => True
  | _ => False

namespace World

def Contains (w : World) : Entry → Prop
  | .cls id => id.val < w.arena.classes.size
  | .object id => id.val < w.arena.objects.size
  | .function id => id.val < w.arena.functions.size
  | .module id => id.val < w.arena.modules.size
  | .scope id => id.val < w.scopes.all.size

/-- An entry is the same in another world. -/
def SameAt (w v : World) : Entry → Prop
  | .cls id => v.arena.classAt id = w.arena.classAt id
  | .object id => v.arena.objectAt id = w.arena.objectAt id
  | .function id => v.arena.functionAt id = w.arena.functionAt id
  | .module id => v.arena.moduleAt id = w.arena.moduleAt id
  | .scope id => v.scopes.scopeAt id = w.scopes.scopeAt id

theorem SameAt.refl (w : World) (e : Entry) : w.SameAt w e := by
  cases e <;> rfl

theorem SameAt.trans {w v u : World} {e : Entry} (h : w.SameAt v e) (k : v.SameAt u e) :
    w.SameAt u e := by
  cases e <;> exact Eq.trans k h

theorem Matches.mono {w v u : World} {R S : Entry → Entry → Prop} {e f : Entry}
    (h : w.Matches v R e f) (hs : v.SameAt u f) (hRS : ∀ {e f : Entry}, R e f → S e f) :
    w.Matches u S e f := by
  cases e with
  | cls id =>
    cases f with
    | cls copy =>
      have hs : u.arena.classAt copy = v.arena.classAt copy := hs
      refine ⟨?_, ?_⟩
      · rw [hs]
        exact h.1.mono hRS
      · rw [hs]
        exact h.2
    | _ => cases h
  | object id =>
    cases f with
    | object copy =>
      have hs : u.arena.objectAt copy = v.arena.objectAt copy := hs
      simp only [Matches, hs]
      exact ObjectInfo.Copied.mono hRS h
    | _ => cases h
  | function id =>
    cases f with
    | function copy =>
      have hs : u.arena.functionAt copy = v.arena.functionAt copy := hs
      simp only [Matches, hs]
      exact FunctionInfo.Copied.mono hRS h
    | _ => cases h
  | module id =>
    cases f with
    | module copy =>
      have hs : u.arena.moduleAt copy = v.arena.moduleAt copy := hs
      simp only [Matches, hs]
      exact ModuleInfo.Copied.mono hRS h
    | _ => cases h
  | scope id =>
    cases f with
    | scope copy =>
      have hs : u.scopes.scopeAt copy = v.scopes.scopeAt copy := hs
      simp only [Matches, hs]
      exact Scope.Copied.mono hRS h
    | _ => cases h

/-- No object is reached from its own class. -/
def Apart (w : World) (P : Entry → Prop) : Prop :=
  ∀ id, P (.object id) → ¬w.Reaches (.cls (w.arena.classOf id)) (.object id)

end World

namespace Adoption

def target (a : Adoption) : World :=
  ⟨a.arena, a.scopes⟩

/-- An entry with a copy of it. The outermost scopes stand for each other. -/
def Pairs (a : Adoption) : Entry → Entry → Prop
  | .cls id, .cls copy => (id, copy) ∈ a.classes
  | .object id, .object copy => (id, copy) ∈ a.objects
  | .function id, .function copy => (id, copy) ∈ a.functions
  | .module id, .module copy => (id, copy) ∈ a.modules
  | .scope id, .scope copy =>
    (id = Scopes.global ∧ copy = Scopes.global) ∨ (id, copy) ∈ a.copied
  | _, _ => False

/-- An entry with at most one copy. -/
def Single (a : Adoption) (e : Entry) : Prop :=
  ∀ ⦃f g : Entry⦄, a.Pairs e f → a.Pairs e g → f = g

/-- All copies are in the target. The outermost scope is no copy. -/
def Valid (a : Adoption) : Prop :=
  ∀ ⦃e f : Entry⦄, a.Pairs e f → f ≠ .scope Scopes.global → a.target.Contains f

theorem eq_global_of_pairs_start {arena : Arena} {scopes : Scopes} {e f : Entry}
    (h : Pairs { arena, scopes } e f) :
    e = .scope Scopes.global ∧ f = .scope Scopes.global := by
  cases e <;> cases f <;> simp_all [Pairs]

theorem not_pairs_start {arena : Arena} {scopes : Scopes} {e f : Entry}
    (h : e ≠ .scope Scopes.global) : ¬Pairs { arena, scopes } e f :=
  fun hp => h (eq_global_of_pairs_start hp).1

theorem single_start {arena : Arena} {scopes : Scopes} (e : Entry) :
    Single { arena, scopes } e := by
  intro f g hf hg
  rw [(eq_global_of_pairs_start hf).2, (eq_global_of_pairs_start hg).2]

theorem valid_start (arena : Arena) (scopes : Scopes) : Valid { arena, scopes } :=
  fun _ _ hp hne => absurd (eq_global_of_pairs_start hp).2 hne

/-- An adoption goes on within a set of entries. -/
structure Extends (w : World) (P : Entry → Prop) (a b : Adoption) : Prop where
  current : b.scopes.current = a.scopes.current
  saved : b.scopes.saved = a.scopes.saved
  module : b.scopes.module = a.scopes.module
  pairs : ∀ {e f : Entry}, a.Pairs e f → b.Pairs e f
  keeps : ∀ {f : Entry}, a.target.Contains f → b.target.Contains f ∧ a.target.SameAt b.target f
  inside : ∀ {e f : Entry}, b.Pairs e f → ¬a.Pairs e f → P e
  fresh : ∀ {e f : Entry}, b.Pairs e f → ¬a.Pairs e f →
    ¬a.target.Contains f ∧ b.target.Contains f
  copies : ∀ {e f : Entry}, b.Pairs e f → ¬a.Pairs e f → w.Matches b.target b.Pairs e f
  onto : ∀ {f : Entry}, b.target.Contains f → ¬a.target.Contains f → ∃ e, b.Pairs e f
  distinct : ∀ {e g f : Entry}, ¬a.target.Contains f → b.Pairs e f → b.Pairs g f →
    ¬a.Pairs e f → ¬a.Pairs g f → e = g
  single : ∀ {e : Entry}, ¬e.IsObject → a.Single e → b.Single e
  singleObject : w.Apart P → ∀ {e : Entry}, e.IsObject → a.Single e → b.Single e
  unmerged : ∀ {id : ClassId}, b.target.Contains (.cls id) → ¬a.target.Contains (.cls id) →
    (b.arena.classAt id).inherited = none

namespace Extends

variable {w : World} {P : Entry → Prop} {a b c : Adoption}

theorem refl (a : Adoption) : Extends w P a a where
  current := rfl
  saved := rfl
  module := rfl
  pairs h := h
  keeps h := ⟨h, .refl _ _⟩
  inside h hn := absurd h hn
  fresh h hn := absurd h hn
  copies h hn := absurd h hn
  onto h hn := absurd h hn
  distinct _ h _ hn _ := absurd h hn
  single _ h := h
  singleObject _ _ _ h := h
  unmerged h hn := absurd h hn

theorem trans (hab : Extends w P a b) (hbc : Extends w P b c) : Extends w P a c where
  current := hbc.current.trans hab.current
  saved := hbc.saved.trans hab.saved
  module := hbc.module.trans hab.module
  pairs h := hbc.pairs (hab.pairs h)
  keeps h :=
    have hb := hab.keeps h
    have hc := hbc.keeps hb.1
    ⟨hc.1, hb.2.trans hc.2⟩
  inside {e f} h hn := by
    by_cases hb : b.Pairs e f
    · exact hab.inside hb hn
    · exact hbc.inside h hb
  fresh {e f} h hn := by
    by_cases hb : b.Pairs e f
    · have hf := hab.fresh hb hn
      exact ⟨hf.1, (hbc.keeps hf.2).1⟩
    · have hf := hbc.fresh h hb
      exact ⟨fun ha => hf.1 (hab.keeps ha).1, hf.2⟩
  copies {e f} h hn := by
    by_cases hb : b.Pairs e f
    · exact (hab.copies hb hn).mono (hbc.keeps (hab.fresh hb hn).2).2 hbc.pairs
    · exact hbc.copies h hb
  onto {f} h hn := by
    by_cases hb : b.target.Contains f
    · obtain ⟨e, he⟩ := hab.onto hb hn
      exact ⟨e, hbc.pairs he⟩
    · exact hbc.onto h hb
  distinct {e g f} hf he hg hne hng := by
    by_cases hb : b.target.Contains f
    · have old {d : Entry} (hd : c.Pairs d f) : b.Pairs d f := by
        by_cases hp : b.Pairs d f
        · exact hp
        · exact absurd hb (hbc.fresh hd hp).1
      exact hab.distinct hf (old he) (old hg) hne hng
    · refine hbc.distinct hb he hg (fun h => hb ?_) fun h => hb ?_
      · exact (hab.fresh h hne).2
      · exact (hab.fresh h hng).2
  single he h := hbc.single he (hab.single he h)
  singleObject hw _ he h := hbc.singleObject hw he (hab.singleObject hw he h)
  unmerged {id} h hn := by
    by_cases hb : b.target.Contains (.cls id)
    · have hsame : c.arena.classAt id = b.arena.classAt id := (hbc.keeps hb).2
      rw [hsame]
      exact hab.unmerged hb hn
    · exact hbc.unmerged h hb

theorem valid (h : Extends w P a b) (ha : a.Valid) : b.Valid := by
  intro e f hp hne
  by_cases hq : a.Pairs e f
  · exact (h.keeps (ha hq hne)).1
  · exact (h.fresh hp hq).2

/-- Distinct entries have distinct copies, and none but the outermost scope stands for that of the
target. -/
theorem eq_of_pairs {arena : Arena} {scopes : Scopes} (h : Extends w P { arena, scopes } b)
    (hglobal : World.Contains ⟨arena, scopes⟩ (.scope Scopes.global)) (e g f : Entry)
    (he : b.Pairs e f) (hg : b.Pairs g f) : e = g := by
  have hstart {e f : Entry} (hp : Pairs { arena, scopes } e f) :
      e = .scope Scopes.global ∧ World.Contains ⟨arena, scopes⟩ f := by
    obtain ⟨he, rfl⟩ := eq_global_of_pairs_start hp
    exact ⟨he, hglobal⟩
  by_cases hold : World.Contains ⟨arena, scopes⟩ f
  · have old {e : Entry} (hp : b.Pairs e f) : e = .scope Scopes.global :=
      (hstart (by_contra fun hn => (h.fresh hp hn).1 hold)).1
    exact (old he).trans (old hg).symm
  · exact h.distinct hold he hg (fun hp => hold (hstart hp).2) fun hp => hold (hstart hp).2

theorem widen {Q : Entry → Prop} (h : Extends w P a b) (hPQ : ∀ {e : Entry}, P e → Q e) :
    Extends w Q a b :=
  { h with
    inside := fun hb hn => hPQ (h.inside hb hn)
    singleObject := fun hw => h.singleObject fun id hid => hw id (hPQ hid) }

end Extends

/-- A place for the copy of an entry is opened. -/
structure Opens (a : Adoption) (e f : Entry) (b : Adoption) : Prop where
  current : b.scopes.current = a.scopes.current
  saved : b.scopes.saved = a.scopes.saved
  module : b.scopes.module = a.scopes.module
  pairs : ∀ {d g : Entry}, b.Pairs d g ↔ a.Pairs d g ∨ (d = e ∧ g = f)
  fresh : ¬a.target.Contains f
  contains : ∀ {g : Entry}, b.target.Contains g ↔ a.target.Contains g ∨ g = f
  keeps : ∀ {g : Entry}, a.target.Contains g → a.target.SameAt b.target g
  unmerged : ∀ {id : ClassId}, f = .cls id → (b.arena.classAt id).inherited = none

theorem Opens.contains_place {a b : Adoption} {e f : Entry} (h : Opens a e f b) :
    b.target.Contains f :=
  h.contains.2 (.inr rfl)

theorem Opens.valid {a b : Adoption} {e f : Entry} (h : Opens a e f b) (ha : a.Valid) :
    b.Valid := by
  intro d g hp hne
  rcases h.pairs.1 hp with hp | ⟨-, rfl⟩
  · exact h.contains.2 (.inl (ha hp hne))
  · exact h.contains_place

/-- The place of an entry is filled. -/
structure Fills (a : Adoption) (f : Entry) (b : Adoption) : Prop where
  current : b.scopes.current = a.scopes.current
  saved : b.scopes.saved = a.scopes.saved
  module : b.scopes.module = a.scopes.module
  pairs : ∀ {d g : Entry}, b.Pairs d g ↔ a.Pairs d g
  contains : ∀ {g : Entry}, b.target.Contains g ↔ a.target.Contains g
  keeps : ∀ {g : Entry}, g ≠ f → a.target.SameAt b.target g
  unmerged : ∀ {id : ClassId}, (b.arena.classAt id).inherited = (a.arena.classAt id).inherited

theorem Opens.single {a b : Adoption} {e f i : Entry} (ho : Opens a e f b)
    (hnew : i = e → ∀ g, ¬a.Pairs i g) (h : a.Single i) : b.Single i := by
  intro g j hg hj
  rcases ho.pairs.1 hg with hg | ⟨hi, rfl⟩
  · rcases ho.pairs.1 hj with hj | ⟨hi, -⟩
    · exact h hg hj
    · exact absurd hg (hnew hi g)
  · rcases ho.pairs.1 hj with hj | ⟨-, rfl⟩
    · exact absurd hj (hnew hi j)
    · rfl

theorem Opens.eq_or_new {a b c d : Adoption} {e f i j : Entry} (ho : Opens a e f b)
    (hf : Fills c f d) (h : d.Pairs i j) (hn : ¬a.Pairs i j) :
    (i = e ∧ j = f) ∨ (c.Pairs i j ∧ ¬b.Pairs i j) := by
  by_cases hb : b.Pairs i j
  · exact .inl ((ho.pairs.1 hb).resolve_left hn)
  · exact .inr ⟨hf.pairs.1 h, hb⟩

theorem Extends.of_fills {w : World} {P : Entry → Prop} {a b c d : Adoption} {e f : Entry}
    (ho : Opens a e f b) (hx : Extends w P b c) (hf : Fills c f d) (he : P e)
    (hm : w.Matches d.target d.Pairs e f)
    (hnew : (e.IsObject → w.Apart P) → ∀ {g : Entry}, ¬a.Pairs e g) : Extends w P a d where
  current := hf.current.trans (hx.current.trans ho.current)
  saved := hf.saved.trans (hx.saved.trans ho.saved)
  module := hf.module.trans (hx.module.trans ho.module)
  pairs h := hf.pairs.2 (hx.pairs (ho.pairs.2 (.inl h)))
  keeps {g} hg := by
    have hb : b.target.Contains g := ho.contains.2 (.inl hg)
    have hne : g ≠ f := by
      rintro rfl
      exact ho.fresh hg
    have hkept := hx.keeps hb
    exact ⟨hf.contains.2 hkept.1, (ho.keeps hg).trans (hkept.2.trans (hf.keeps hne))⟩
  inside h hn := by
    rcases ho.eq_or_new hf h hn with ⟨rfl, rfl⟩ | ⟨hc, hb⟩
    · exact he
    · exact hx.inside hc hb
  fresh h hn := by
    rcases ho.eq_or_new hf h hn with ⟨rfl, rfl⟩ | ⟨hc, hb⟩
    · exact ⟨ho.fresh, hf.contains.2 (hx.keeps ho.contains_place).1⟩
    · have hj := hx.fresh hc hb
      exact ⟨fun ha => hj.1 (ho.contains.2 (.inl ha)), hf.contains.2 hj.2⟩
  copies h hn := by
    rcases ho.eq_or_new hf h hn with ⟨rfl, rfl⟩ | ⟨hc, hb⟩
    · exact hm
    · refine (hx.copies hc hb).mono (hf.keeps ?_) hf.pairs.2
      rintro rfl
      exact (hx.fresh hc hb).1 ho.contains_place
  onto {g} hg hn := by
    by_cases hb : b.target.Contains g
    · have hgf : g = f := (ho.contains.1 hb).resolve_left hn
      exact ⟨e, hgf ▸ hf.pairs.2 (hx.pairs (ho.pairs.2 (.inr ⟨rfl, rfl⟩)))⟩
    · obtain ⟨i, hi⟩ := hx.onto (hf.contains.1 hg) hb
      exact ⟨i, hf.pairs.2 hi⟩
  distinct hg hi hj hni hnj := by
    rcases ho.eq_or_new hf hi hni with ⟨rfl, rfl⟩ | ⟨hci, hbi⟩
    · rcases ho.eq_or_new hf hj hnj with ⟨rfl, -⟩ | ⟨hcj, hbj⟩
      · rfl
      · exact absurd ho.contains_place (hx.fresh hcj hbj).1
    · rcases ho.eq_or_new hf hj hnj with ⟨rfl, rfl⟩ | ⟨hcj, hbj⟩
      · exact absurd ho.contains_place (hx.fresh hci hbi).1
      · exact hx.distinct (hx.fresh hci hbi).1 hci hcj hbi hbj
  single {i} hi h g j hg hj := by
    have hb : b.Single i := ho.single (fun hie g => hie ▸ hnew fun ho => absurd (hie ▸ ho) hi) h
    exact hx.single hi hb (hf.pairs.1 hg) (hf.pairs.1 hj)
  singleObject hw i hi h g j hg hj := by
    have hb : b.Single i := ho.single (fun hie g => hie ▸ hnew fun _ => hw) h
    exact hx.singleObject hw hi hb (hf.pairs.1 hg) (hf.pairs.1 hj)
  unmerged {id} hid hn := by
    rw [hf.unmerged]
    by_cases hb : b.target.Contains (.cls id)
    · have hsame : c.arena.classAt id = b.arena.classAt id := (hx.keeps hb).2
      rw [hsame]
      exact ho.unmerged ((ho.contains.1 hb).resolve_left hn).symm
    · exact hx.unmerged (hf.contains.1 hid) hb

end Adoption

end Credence

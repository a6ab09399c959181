import Credence.Tree.Returns

namespace Credence

namespace StmtForm

variable {σ : Type}

/-- The blocks in which a `break` leaves the loop around the statement. The `else` block of a loop is outside of
that loop. -/
def openBlocks : StmtForm σ → List (List σ)
  | whileLoop _ _ orelse | forLoop _ _ _ orelse _ => [orelse]
  | form => form.blocks

def isLoop : StmtForm σ → Bool
  | whileLoop _ _ _ | forLoop _ _ _ _ _ => true
  | _ => false

def isPlain : StmtForm σ → Bool
  | ret _ | brk | cont | raise _ _ | ifElse _ _ _ | whileLoop _ _ _ | forLoop _ _ _ _ _ | tryExcept _ _ _ _
  | withItems _ _ _ => false
  | _ => true

end StmtForm

/-- A statement of a body that is in no loop within it. -/
inductive Stmt.Loose (t : Stmt) : List Stmt → Prop
  | here {body : List Stmt} (h : t ∈ body) : Loose t body
  | deeper {body b : List Stmt} {s : Stmt} (hs : s ∈ body) (hb : b ∈ s.form.openBlocks) (h : Loose t b) :
    Loose t body

/-- A statement of a body that is in no loop within it, nor in the `else` block of one. -/
inductive Stmt.Direct (t : Stmt) : List Stmt → Prop
  | here {body : List Stmt} (h : t ∈ body) : Direct t body
  | deeper {body b : List Stmt} {s : Stmt} (hs : s ∈ body) (hloop : s.form.isLoop = false)
    (hb : b ∈ s.form.blocks) (h : Direct t b) : Direct t body

/-- Some `break` leaves the loop around the body. -/
def Escapes (body : List Stmt) : Prop :=
  ∃ t : Stmt, t.Loose body ∧ t.form = .brk

inductive Ending where
  | normal
  | broken | continued | returned | raised
deriving DecidableEq

/-- What a path goes through. -/
inductive Region where
  | stmt (s : Stmt)
  | block (body : List Stmt)
  /-- The turns of a loop that are still to come. An endless loop ends in its body only. -/
  | turns (isEndless : Bool) (body orelse : List Stmt)
  | guarded (body : List Stmt) (handlers : List (Handler Stmt)) (orelse : List Stmt)

/-- A path through a region, and how it ends. -/
inductive Path : Region → Ending → Prop
  | raises (s : Stmt) : Path (.stmt s) .raised
  | plain {s : Stmt} (h : s.form.isPlain) : Path (.stmt s) .normal
  | returns {s : Stmt} {value : Option Expr} (h : s.form = .ret value) : Path (.stmt s) .returned
  | breaks {s : Stmt} (h : s.form = .brk) : Path (.stmt s) .broken
  | continues {s : Stmt} (h : s.form = .cont) : Path (.stmt s) .continued
  | branch {s : Stmt} {test : Expr} {body orelse : List Stmt} {e : Ending}
    (h : s.form = .ifElse test body orelse) (p : Path (.block body) e) : Path (.stmt s) e
  | otherwise {s : Stmt} {test : Expr} {body orelse : List Stmt} {e : Ending}
    (h : s.form = .ifElse test body orelse) (p : Path (.block orelse) e) : Path (.stmt s) e
  | within {s : Stmt} {items : List WithItem} {body : List Stmt} {isAsync : Bool} {e : Ending}
    (h : s.form = .withItems items body isAsync) (p : Path (.block body) e) : Path (.stmt s) e
  | whileLoop {s : Stmt} {test : Expr} {body orelse : List Stmt} {e : Ending}
    (h : s.form = .whileLoop test body orelse) (p : Path (.turns test.isTrue body orelse) e) : Path (.stmt s) e
  | forLoop {s : Stmt} {target iter : Expr} {body orelse : List Stmt} {isAsync : Bool} {e : Ending}
    (h : s.form = .forLoop target iter body orelse isAsync) (p : Path (.turns false body orelse) e) :
    Path (.stmt s) e
  | afterwards {s : Stmt} {body : List Stmt} {handlers : List (Handler Stmt)} {orelse finalbody : List Stmt}
    {e : Ending} (h : s.form = .tryExcept body handlers orelse finalbody)
    (p : Path (.guarded body handlers orelse) e) (q : Path (.block finalbody) .normal) : Path (.stmt s) e
  /-- A `finally` block that does not reach its end has the last word. -/
  | instead {s : Stmt} {body : List Stmt} {handlers : List (Handler Stmt)} {orelse finalbody : List Stmt}
    {e e' : Ending} (h : s.form = .tryExcept body handlers orelse finalbody)
    (p : Path (.guarded body handlers orelse) e) (q : Path (.block finalbody) e') (he : e' ≠ .normal) :
    Path (.stmt s) e'
  | nil : Path (.block []) .normal
  | next {s : Stmt} {rest : List Stmt} {e : Ending} (p : Path (.stmt s) .normal) (q : Path (.block rest) e) :
    Path (.block (s :: rest)) e
  | leave {s : Stmt} {rest : List Stmt} {e : Ending} (p : Path (.stmt s) e) (he : e ≠ .normal) :
    Path (.block (s :: rest)) e
  | done {body orelse : List Stmt} {e : Ending} (p : Path (.block orelse) e) : Path (.turns false body orelse) e
  | turn {isEndless : Bool} {body orelse : List Stmt} {e e' : Ending} (p : Path (.block body) e)
    (he : e = .normal ∨ e = .continued) (q : Path (.turns isEndless body orelse) e') :
    Path (.turns isEndless body orelse) e'
  | escape {isEndless : Bool} {body orelse : List Stmt} (p : Path (.block body) .broken) :
    Path (.turns isEndless body orelse) .normal
  | exit {isEndless : Bool} {body orelse : List Stmt} {e : Ending} (p : Path (.block body) e)
    (he : e = .returned ∨ e = .raised) : Path (.turns isEndless body orelse) e
  | through {body : List Stmt} {handlers : List (Handler Stmt)} {orelse : List Stmt} {e : Ending}
    (p : Path (.block body) .normal) (q : Path (.block orelse) e) : Path (.guarded body handlers orelse) e
  | handled {body : List Stmt} {handlers : List (Handler Stmt)} {orelse : List Stmt} {handler : Handler Stmt}
    {e : Ending} (p : Path (.block body) .raised) (h : handler ∈ handlers)
    (q : Path (.block handler.body) e) : Path (.guarded body handlers orelse) e
  | unhandled {body : List Stmt} {handlers : List (Handler Stmt)} {orelse : List Stmt} {e : Ending}
    (p : Path (.block body) e) (he : e ≠ .normal) : Path (.guarded body handlers orelse) e

theorem Stmt.not_loose_nil {t : Stmt} : ¬t.Loose [] := by
  intro h
  cases h with
  | here h => cases h
  | deeper hs => cases hs

theorem Stmt.loose_singleton {t s : Stmt} :
    t.Loose [s] ↔ t = s ∨ ∃ b ∈ s.form.openBlocks, t.Loose b := by
  constructor
  · intro h
    cases h with
    | here h => exact .inl (List.mem_singleton.1 h)
    | deeper hs hb h => exact .inr ⟨_, List.mem_singleton.1 hs ▸ hb, h⟩
  · rintro (rfl | ⟨b, hb, h⟩)
    · exact .here List.mem_cons_self
    · exact .deeper List.mem_cons_self hb h

theorem Stmt.Loose.mono {t : Stmt} {body body' : List Stmt} (h : t.Loose body) (hsub : body ⊆ body') :
    t.Loose body' := by
  cases h with
  | here h => exact .here (hsub h)
  | deeper hs hb h => exact .deeper (hsub hs) hb h

theorem Escapes.mono {body body' : List Stmt} (h : Escapes body) (hsub : body ⊆ body') : Escapes body' := by
  obtain ⟨t, ht, hform⟩ := h
  exact ⟨t, ht.mono hsub, hform⟩

theorem Escapes.of_openBlocks {s : Stmt} {blocks : List (List Stmt)} (hsub : blocks ⊆ s.form.openBlocks)
    (h : ∃ b ∈ blocks, Escapes b) : Escapes [s] := by
  obtain ⟨b, hb, t, ht, hform⟩ := h
  exact ⟨t, .deeper List.mem_cons_self (hsub hb) ht, hform⟩

theorem StmtForm.openBlocks_of_not_isLoop {form : StmtForm Stmt} (h : form.isLoop = false) :
    form.openBlocks = form.blocks := by
  cases form with
  | whileLoop | forLoop => cases h
  | _ => rfl

theorem Stmt.Loose.direct {t : Stmt} {body : List Stmt} (ht : t.Loose body)
    (h : ∀ inner : Stmt, inner.Loose body → inner.form.isLoop → ∀ b ∈ inner.form.openBlocks, ¬t.Loose b) :
    t.Direct body := by
  induction ht with
  | here ht => exact .here ht
  | @deeper body b s hs hb ht ih =>
    have hloop : s.form.isLoop = false := Bool.eq_false_iff.2 fun hloop => h s (.here hs) hloop b hb ht
    have hdirect : t.Direct b := ih fun inner hinner => h inner (.deeper hs hb hinner)
    rw [StmtForm.openBlocks_of_not_isLoop hloop] at hb
    exact .deeper hs hloop hb hdirect

theorem Stmt.Direct.mono {t : Stmt} {body body' : List Stmt} (h : t.Direct body) (hsub : body ⊆ body') :
    t.Direct body' := by
  cases h with
  | here h => exact .here (hsub h)
  | deeper hs hloop hb h => exact .deeper (hsub hs) hloop hb h

theorem breaks_cons (s : Stmt) (rest : List Stmt) :
    breaks (s :: rest) =
      (s.form matches .brk || (!s.form.isLoop && s.form.blocks.any breaks) || breaks rest) := by
  have hattach : (s.blocks.attach.any fun b => breaks b.val) = s.form.blocks.any breaks := by
    rw [List.any_subtype fun _ _ => rfl, List.unattach_attach, Stmt.blocks]
  rw [breaks]
  simp only [hattach]
  cases s.form <;> simp [StmtForm.isLoop, StmtForm.blocks]

theorem breaks_iff (body : List Stmt) : breaks body ↔ ∃ t : Stmt, t.Direct body ∧ t.form = .brk := by
  constructor
  · intro h
    induction body using breaks.induct with
    | case1 => simp [breaks] at h
    | case2 s rest ihblocks ihrest =>
      simp only [breaks_cons, Bool.or_eq_true, Bool.and_eq_true, List.any_eq_true] at h
      rcases h with (hbrk | ⟨hloop, b, hb, hbreaks⟩) | hrest
      · refine ⟨s, .here List.mem_cons_self, ?_⟩
        split at hbrk
        · assumption
        · cases hbrk
      · obtain ⟨t, ht, hform⟩ := ihblocks b hb hbreaks
        exact ⟨t, .deeper List.mem_cons_self (by simpa using hloop) hb ht, hform⟩
      · obtain ⟨t, ht, hform⟩ := ihrest hrest
        exact ⟨t, ht.mono (List.subset_cons_self s rest), hform⟩
  · rintro ⟨t, ht, hform⟩
    induction ht with
    | @here body ht =>
      obtain ⟨first, rest, rfl⟩ := List.append_of_mem ht
      induction first with
      | nil => simp [breaks_cons, hform]
      | cons s first ih => simp [breaks_cons, ih]
    | @deeper body b s hs hloop hb _ ih =>
      have hany : s.form.blocks.any breaks := List.any_eq_true.2 ⟨b, hb, ih⟩
      obtain ⟨first, rest, rfl⟩ := List.append_of_mem hs
      clear hs
      induction first with
      | nil => simp [breaks_cons, hloop, hany]
      | cons s first ih => simp [breaks_cons, ih]

def Region.openBlocks : Region → List (List Stmt)
  | stmt s => [[s]]
  | block body => [body]
  | turns _ _ orelse => [orelse]
  | guarded body handlers orelse => body :: handlers.map (·.body) ++ [orelse]

theorem Region.exists_openBlocks_block {body : List Stmt} :
    (∃ b ∈ (block body).openBlocks, Escapes b) ↔ Escapes body := by
  simp [openBlocks]

/-- A path that ends with a `break` goes through one that leaves the loop around the region. -/
theorem Path.escapes {r : Region} {e : Ending} (p : Path r e) (he : e = .broken) :
    ∃ b ∈ r.openBlocks, Escapes b := by
  induction p with
  | raises | plain | returns | continues | nil | escape => cases he
  | breaks h => exact ⟨_, List.mem_cons_self, _, .here List.mem_cons_self, h⟩
  | branch h _ ih | otherwise h _ ih | within h _ ih =>
    refine ⟨_, List.mem_cons_self, .of_openBlocks ?_ (ih he)⟩
    simp [h, StmtForm.openBlocks, StmtForm.blocks, Region.openBlocks]
  | whileLoop h _ ih | forLoop h _ ih =>
    refine ⟨_, List.mem_cons_self, .of_openBlocks ?_ (ih he)⟩
    simp [h, StmtForm.openBlocks, Region.openBlocks]
  | afterwards h _ _ ih _ | instead h _ _ _ _ ih =>
    refine ⟨_, List.mem_cons_self, .of_openBlocks ?_ (ih he)⟩
    simp [h, StmtForm.openBlocks, StmtForm.blocks, Region.openBlocks]
  | next _ _ _ ih =>
    have hrest := Region.exists_openBlocks_block.1 (ih he)
    exact Region.exists_openBlocks_block.2 (hrest.mono (List.subset_cons_self _ _))
  | leave _ _ ih =>
    have hfirst := Region.exists_openBlocks_block.1 (ih he)
    exact Region.exists_openBlocks_block.2 (hfirst.mono (by simp))
  | done _ ih => exact ih he
  | turn _ _ _ _ ih => exact ih he
  | exit _ hexit _ => rcases hexit with rfl | rfl <;> cases he
  | through _ _ _ ih => exact ⟨_, by simp [Region.openBlocks], Region.exists_openBlocks_block.1 (ih he)⟩
  | @handled _ _ _ handler _ _ hm _ _ ih =>
    have hbody := List.mem_map_of_mem (f := (·.body)) hm
    exact ⟨handler.body, by simp [Region.openBlocks, hbody], Region.exists_openBlocks_block.1 (ih he)⟩
  | unhandled _ _ ih => exact ⟨_, by simp [Region.openBlocks], Region.exists_openBlocks_block.1 (ih he)⟩

/-- An endless loop of the body that is left by some `break` is left by one that is not in the `else` block
of an inner loop. -/
def NoticesBreaks (body : List Stmt) : Prop :=
  ∀ s : Stmt, s.Loose body → ∀ test loop orelse, s.form = .whileLoop test loop orelse → test.isTrue →
    Escapes loop → ∃ t : Stmt, t.Direct loop ∧ t.form = .brk

/-- What the analysis finds of a body, with no `break` missed. -/
def Settled (body : List Stmt) : Prop :=
  alwaysReturns body ∧ NoticesBreaks body

theorem NoticesBreaks.mono {body body' : List Stmt} (h : NoticesBreaks body') (hsub : body ⊆ body') :
    NoticesBreaks body :=
  fun s hs => h s (hs.mono hsub)

theorem NoticesBreaks.openBlock {s : Stmt} {b : List Stmt} (h : NoticesBreaks [s])
    (hb : b ∈ s.form.openBlocks) : NoticesBreaks b :=
  fun t ht => h t (.deeper List.mem_cons_self hb ht)

/-- A body notices its breaks if none is in the `else` block of a loop that is within an endless one. -/
theorem noticesBreaks_of_else {body : List Stmt}
    (h : ∀ s : Stmt, s.Loose body → ∀ test loop orelse, s.form = .whileLoop test loop orelse → test.isTrue →
      ∀ inner : Stmt, inner.Loose loop → inner.form.isLoop → ∀ b ∈ inner.form.openBlocks, ¬Escapes b) :
    NoticesBreaks body := by
  intro s hs test loop orelse hform htrue ⟨t, ht, hbrk⟩
  have helse := h s hs test loop orelse hform htrue
  exact ⟨t, ht.direct fun inner hinner hloop b hb htb => helse inner hinner hloop b hb ⟨t, htb, hbrk⟩, hbrk⟩

theorem alwaysReturns_cons (s : Stmt) (rest : List Stmt) :
    alwaysReturns (s :: rest) = (alwaysReturns [s] || alwaysReturns rest) := by
  rw [alwaysReturns, alwaysReturns.eq_def [s]]
  simp [alwaysReturns]

theorem alwaysReturns_singleton (s : Stmt) :
    alwaysReturns [s] =
      match s.form with
      | .ret _ | .raise _ _ => true
      | .ifElse _ body orelse => !orelse.isEmpty && alwaysReturns body && alwaysReturns orelse
      | .tryExcept body handlers orelse finalbody =>
        alwaysReturns finalbody ||
          ((alwaysReturns body || alwaysReturns orelse) && handlers.all (alwaysReturns ·.body))
      | .withItems _ body _ => alwaysReturns body
      | .whileLoop test body _ => test.isTrue && !breaks body
      | _ => false := by
  rw [alwaysReturns, alwaysReturns, Bool.or_false]
  split <;> simp [*, Function.comp_def]

theorem Settled.cons {s : Stmt} {rest : List Stmt} (h : Settled (s :: rest)) : Settled [s] ∨ Settled rest := by
  obtain ⟨hreturns, hnotices⟩ := h
  rw [alwaysReturns_cons, Bool.or_eq_true] at hreturns
  rcases hreturns with hfirst | hrest
  · exact .inl ⟨hfirst, hnotices.mono (by simp)⟩
  · exact .inr ⟨hrest, hnotices.mono (List.subset_cons_self _ _)⟩

def Region.Left : Region → Prop
  | stmt s => Settled [s]
  | block body => Settled body
  | turns isEndless body _ => isEndless ∧ ¬Escapes body
  | guarded body handlers orelse =>
    (Settled body ∨ Settled orelse) ∧ ∀ handler ∈ handlers, Settled handler.body

namespace Settled

variable {s : Stmt}

theorem not_isPlain (h : Settled [s]) : s.form.isPlain = false := by
  have hreturns := h.1
  rw [alwaysReturns_singleton] at hreturns
  cases hform : s.form <;> simp_all [StmtForm.isPlain]

theorem ifElse {test : Expr} {body orelse : List Stmt} (h : Settled [s])
    (hform : s.form = .ifElse test body orelse) : Settled body ∧ Settled orelse := by
  obtain ⟨hreturns, hnotices⟩ := h
  simp only [alwaysReturns_singleton, hform, Bool.and_eq_true] at hreturns
  have hblocks : s.form.openBlocks = [body, orelse] := by rw [hform]; rfl
  exact ⟨⟨hreturns.1.2, hnotices.openBlock (by simp [hblocks])⟩,
    ⟨hreturns.2, hnotices.openBlock (by simp [hblocks])⟩⟩

theorem withItems {items : List WithItem} {body : List Stmt} {isAsync : Bool} (h : Settled [s])
    (hform : s.form = .withItems items body isAsync) : Settled body := by
  obtain ⟨hreturns, hnotices⟩ := h
  simp only [alwaysReturns_singleton, hform] at hreturns
  have hblocks : s.form.openBlocks = [body] := by rw [hform]; rfl
  exact ⟨hreturns, hnotices.openBlock (by simp [hblocks])⟩

theorem whileLoop {test : Expr} {body orelse : List Stmt} (h : Settled [s])
    (hform : s.form = .whileLoop test body orelse) : (Region.turns test.isTrue body orelse).Left := by
  obtain ⟨hreturns, hnotices⟩ := h
  simp only [alwaysReturns_singleton, hform, Bool.and_eq_true, Bool.not_eq_true'] at hreturns
  refine ⟨hreturns.1, fun hescapes => ?_⟩
  have hbreaks := (breaks_iff body).2 (hnotices s (.here List.mem_cons_self) _ _ _ hform hreturns.1 hescapes)
  simp [hreturns.2] at hbreaks

theorem not_forLoop {target iter : Expr} {body orelse : List Stmt} {isAsync : Bool} (h : Settled [s]) :
    s.form ≠ .forLoop target iter body orelse isAsync := by
  intro hform
  have hreturns := h.1
  simp [alwaysReturns_singleton, hform] at hreturns

theorem tryExcept {body : List Stmt} {handlers : List (Handler Stmt)} {orelse finalbody : List Stmt}
    (h : Settled [s]) (hform : s.form = .tryExcept body handlers orelse finalbody) :
    Settled finalbody ∨ (Region.guarded body handlers orelse).Left := by
  obtain ⟨hreturns, hnotices⟩ := h
  simp only [alwaysReturns_singleton, hform, Bool.or_eq_true, Bool.and_eq_true, List.all_eq_true] at hreturns
  have hblocks : s.form.openBlocks = body :: handlers.map (·.body) ++ [orelse, finalbody] := by
    rw [hform]
    rfl
  have hsettled {b : List Stmt} (hb : b ∈ s.form.openBlocks) (hreturns : alwaysReturns b) : Settled b :=
    ⟨hreturns, hnotices.openBlock hb⟩
  refine hreturns.imp (hsettled (by simp [hblocks])) fun ⟨hmain, hhandlers⟩ => ⟨?_, fun handler hm => ?_⟩
  · exact hmain.imp (hsettled (by simp [hblocks])) (hsettled (by simp [hblocks]))
  · exact hsettled (by simp [hblocks, List.mem_map_of_mem (f := (·.body)) hm]) (hhandlers handler hm)

end Settled

theorem Path.ne_normal {r : Region} {e : Ending} (p : Path r e) (h : r.Left) : e ≠ .normal := by
  induction p with
  | raises | returns | breaks | continues => nofun
  | plain hplain => simp [Settled.not_isPlain h] at hplain
  | branch hform _ ih => exact ih (Settled.ifElse h hform).1
  | otherwise hform _ ih => exact ih (Settled.ifElse h hform).2
  | within hform _ ih => exact ih (Settled.withItems h hform)
  | whileLoop hform _ ih => exact ih (Settled.whileLoop h hform)
  | forLoop hform => exact absurd hform (Settled.not_forLoop h)
  | afterwards hform _ _ ih ihfinal =>
    rcases Settled.tryExcept h hform with hfinal | hguarded
    · exact absurd rfl (ihfinal hfinal)
    · exact ih hguarded
  | nil => simp [Region.Left, Settled, alwaysReturns] at h
  | next _ _ ihfirst ihrest =>
    rcases Settled.cons h with hfirst | hrest
    · exact absurd rfl (ihfirst hfirst)
    · exact ihrest hrest
  | instead _ _ _ he | leave _ he | unhandled _ he => exact he
  | done => cases h.1
  | turn _ _ _ _ ih => exact ih h
  | escape p => exact absurd (Region.exists_openBlocks_block.1 (p.escapes rfl)) h.2
  | exit _ he => rcases he with rfl | rfl <;> nofun
  | through _ _ ihbody ihorelse =>
    rcases h.1 with hbody | horelse
    · exact absurd rfl (ihbody hbody)
    · exact ihorelse horelse
  | handled _ hm _ _ ih => exact ih (h.2 _ hm)

/-- A body that always returns has no path to its end, if no `break` out of an endless loop is missed. -/
theorem no_path_to_end {body : List Stmt} (hnotices : NoticesBreaks body) (h : alwaysReturns body) :
    ¬Path (.block body) .normal := by
  intro p
  have hsettled : Settled body := ⟨h, hnotices⟩
  exact p.ne_normal hsettled rfl

/-- An endless loop around a loop over something, with its body and its `else` block. -/
def endlessly (body orelse : List (StmtForm Stmt)) : Stmt :=
  let name (text : String) : Expr := ⟨0, .name text, default⟩
  let stmts (forms : List (StmtForm Stmt)) : List Stmt := forms.map (⟨0, ·, default⟩)
  let inner : StmtForm Stmt := .forLoop (name "x") (name "xs") (stmts body) (stmts orelse) false
  ⟨0, .whileLoop ⟨0, .bool true, default⟩ (stmts [inner]) [], default⟩

theorem alwaysReturns_endlessly (body orelse : List (StmtForm Stmt)) :
    alwaysReturns [endlessly body orelse] := by
  simp [alwaysReturns_singleton, endlessly, Expr.isTrue, breaks]

theorem loose_endlessly {t : Stmt} {body orelse : List (StmtForm Stmt)} :
    t.Loose [endlessly body orelse] ↔ t = endlessly body orelse := by
  rw [Stmt.loose_singleton]
  simp [endlessly, StmtForm.openBlocks, Stmt.not_loose_nil]

theorem no_path_to_end_returning :
    NoticesBreaks [endlessly [.brk] [.ret none]] ∧ alwaysReturns [endlessly [.brk] [.ret none]] ∧
      ¬Path (.block [endlessly [.brk] [.ret none]]) .normal := by
  have hnotices : NoticesBreaks [endlessly [.brk] [.ret none]] := by
    intro s hs test loop orelse hform _ ⟨t, ht, hbrk⟩
    obtain rfl := loose_endlessly.1 hs
    cases hform
    rcases Stmt.loose_singleton.1 ht with rfl | ⟨b, hb, ht⟩
    · cases hbrk
    · obtain rfl := List.mem_singleton.1 hb
      rcases Stmt.loose_singleton.1 ht with rfl | ⟨b, hb, _⟩
      · cases hbrk
      · cases hb
  exact ⟨hnotices, alwaysReturns_endlessly _ _, no_path_to_end hnotices (alwaysReturns_endlessly _ _)⟩

/-- A `break` in the `else` block of the inner loop is missed, and the path that takes it reaches the end. -/
theorem path_to_end_by_else :
    ¬∀ body : List Stmt, (∀ t : Stmt, t.Loose body → t.form ≠ .brk ∧ t.form ≠ .cont) →
      alwaysReturns body → ¬Path (.block body) .normal := by
  intro h
  refine h [endlessly [.pass] [.brk]] ?_ (alwaysReturns_endlessly _ _) ?_
  · intro t ht
    obtain rfl := loose_endlessly.1 ht
    exact ⟨nofun, nofun⟩
  · refine .next (.whileLoop rfl (.escape (.leave ?_ nofun))) .nil
    exact .forLoop rfl (.done (.leave (.breaks rfl) nofun))

end Credence

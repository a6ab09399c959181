import Credence.Proofs.Reached
import Credence.Proofs.SettlingStmt
import Credence.Proofs.Steps

namespace Credence

open Check

/-- What may be said against a type that an expression gets, given the session before. -/
abbrev Objection := Context → Session → Expr → Ty → Prop

namespace CheckM

variable {objection : Objection} {e : Expr} {x : CheckM Ty} {c : Context} {s u : Session} {t : Ty}

open Classical in
/-- Stops in the session before an expression if there is an objection to its type. -/
noncomputable def vetted (objection : Objection) (e : Expr) (x : CheckM Ty) : CheckM Ty := do
  let before ← get
  let t ← x
  if objection (← read) before e t then
    set before
    throw .exhausted
  return t

theorem outcome_vetted_error {stop : Stop} (h : x.outcome c s = (.error stop, u)) :
    (vetted objection e x).outcome c s = (.error stop, u) := by
  simp [vetted, h]

theorem outcome_vetted_of (h : x.outcome c s = (.ok t, u)) (ho : objection c s e t) :
    (vetted objection e x).outcome c s = (.error .exhausted, s) := by
  simp [vetted, h, ho]

theorem outcome_vetted (h : x.outcome c s = (.ok t, u)) (ho : ¬objection c s e t) :
    (vetted objection e x).outcome c s = (.ok t, u) := by
  simp [vetted, h, ho]

end CheckM

/-- The checks that go at most as deep as the fuel, with the types of all expressions vetted. -/
noncomputable def Check.vettedUpTo (objection : Objection) : Nat → Inner
  | 0 => innerUpTo 0
  | n + 1 =>
    { (vettedUpTo objection n).over with
      expr := fun e => CheckM.vetted objection e (exprOver (vettedUpTo objection n) e) }

def Session.recall (s : Session) (e : Expr) : Option Ty × Memo :=
  s.memo.get e.span.start.file e.id ⟨s.scopes.current, s.scopes.generation, s.arena.generation⟩

theorem Session.Settled.keeping {u : Session} (hu : u.Settled) (e : Expr) {t : Ty}
    (ht : t.Settled) : (keeping u e t).Settled := by
  refine { hu with memo := fun key kept hkept => ?_ }
  rcases Memo.getElem?_store hkept with rfl | hold
  · exact ht
  · exact hu.memo key kept hold

def Context.hinted (c : Context) (e : Expr) : Option (Ty × Float) :=
  if e.span.start.file == c.treeFile then c.hints.get? e.span else none

namespace Objection

/-- An attribute is undefined. -/
def undefinedRead : Objection :=
  fun _ _ e t => e.IsMember ∧ t = .undefined

/-- An expression is undefined; or a tuple is displayed and its type, which is neither remembered nor
hinted, is no tuple of as many elements. -/
def escape : Objection :=
  fun c s e t => t = .undefined ∨ ∃ n, e.Displays n ∧ (s.recall e).1 = none ∧
    (∀ found ∈ c.hinted e, found.1.isUnknown) ∧ ¬t.IsTuple n

end Objection

namespace Check

variable {inner other : Inner} {c : Context} {s u : Session} {e : Expr} {t : Ty}

/-- The type that the parts of an expression give, unless a hint says more. -/
def inferOver (inner : Inner) (e : Expr) : CheckM Ty := do
  let inferred ← evaluate inner e
  return match ← CheckM.hint? e with
    | some (hinted, _) => if hinted.isUnknown then inferred else hinted
    | none => inferred

theorem outcome_hint? (e : Expr) (c : Context) (s : Session) :
    (CheckM.hint? e).outcome c s = (.ok (c.hinted e), s) := by
  simp [CheckM.hint?, Context.hinted]

theorem outcome_exprOver (inner : Inner) (e : Expr) (c : Context) (s : Session) :
    (exprOver inner e).outcome c s =
      match s.recall e with
      | (some t, memo) => (.ok t, { s with memo })
      | (none, memo) =>
        match (inferOver inner e).outcome c { s with memo } with
        | (.ok t, u) => (.ok t, keeping u e t)
        | (.error stop, u) => (.error stop, u) := by
  rcases h : s.recall e with ⟨_ | t, memo⟩
  · unfold Session.recall at h
    rcases heval : (evaluate inner e).outcome c { s with memo } with ⟨stop | inferred, u⟩
    · simp [exprOver, inferOver, CheckM.stamp, h, heval]
    · cases hhint : c.hinted e <;>
        simp [exprOver, inferOver, CheckM.stamp, h, heval, outcome_hint?, hhint, keeping]
  · unfold Session.recall at h
    simp [exprOver, CheckM.stamp, h]

theorem Settles.of_outcomes {α : Type} {x y : CheckM α} {Q : α → Prop} {result : Except Stop α}
    (hx : x.outcome c s = (result, u)) (hy : y.outcome c s = (result, u)) (hu : u.Settled)
    (hresult : ∀ a, result = .ok a → Q a) : Discipline.settled.Yields c x y s fun _ => Q where
  same := hx.trans hy.symm
  moves := by
    rw [hx]
    exact hu.moves
  stop _ _ := trivial
  result a t ht := hresult a (congrArg Prod.fst (hx.symm.trans ht))

namespace Settling

variable (F : Settling c inner other)
include F

theorem inferOver (e : Expr) :
    Settles c (Check.inferOver inner e) (Check.inferOver other e) fun t => t.Held ∧
      (t = .undefined → e.IsMember) ∧
      ∀ n, e.Displays n → (∀ found ∈ c.hinted e, found.1.isUnknown) → t.IsTuple n := by
  refine (F.evaluate_yields e).bind fun inferred hinferred => ?_
  refine Settles.bind (Q := (· = c.hinted e)) (.of_ok (fun s => outcome_hint? e c s) fun _ hs => ⟨hs, rfl⟩)
    fun hint hhint => .pure ?_
  subst hhint
  have hyields : inferred.Held ∧ (inferred = .undefined → e.IsMember) ∧
      ∀ n, e.Displays n → (∀ found ∈ c.hinted e, found.1.isUnknown) → inferred.IsTuple n :=
    ⟨hinferred.held, hinferred.member, fun n hn _ => hinferred.tuple n hn⟩
  cases hhinted : c.hinted e with
  | none =>
    rw [hhinted] at hyields
    exact hyields
  | some found =>
    rw [hhinted] at hyields
    simp only
    split
    · exact hyields
    · rename_i hknown
      have hheld : found.1.Held := by
        unfold Context.hinted at hhinted
        split at hhinted
        · exact F.context.hints _ _ hhinted
        · cases hhinted
      refine ⟨hheld, fun h => ?_, fun n _ h => absurd (h found rfl) hknown⟩
      rw [h] at hknown
      exact absurd rfl hknown

/-- An undefined type is objected to either way, and nothing else is. -/
theorem vetted_exprOver (e : Expr) :
    Settles c (CheckM.vetted .undefinedRead e (exprOver inner e))
      (CheckM.vetted .escape e (exprOver other e)) Ty.Settled := by
  intro s hs
  have hinner := outcome_exprOver inner e c s
  have hother := outcome_exprOver other e c s
  have hentries : (s.recall e).2.entries = s.memo.entries := Memo.entries_get ..
  have hmemo : { s with memo := (s.recall e).2 }.Settled :=
    ⟨hs.arena, hs.scopes, hs.frames, hentries ▸ hs.memo⟩
  -- Neither objects to a settled type of a tuple with the elements that are displayed.
  have passes {t : Ty} {u : Session} (ht : t.Settled) (hu : u.Settled)
      (htuple : ∀ n, e.Displays n → (s.recall e).1 = none →
        (∀ found ∈ c.hinted e, found.1.isUnknown) → t.IsTuple n)
      (hinner : (exprOver inner e).outcome c s = (.ok t, u))
      (hother : (exprOver other e).outcome c s = (.ok t, u)) :
      Discipline.settled.Yields c (CheckM.vetted .undefinedRead e (exprOver inner e))
        (CheckM.vetted .escape e (exprOver other e)) s fun _ => Ty.Settled := by
    have hdefined : t ≠ .undefined := by
      rintro rfl
      cases ht
    refine Settles.of_outcomes (CheckM.outcome_vetted hinner fun h => hdefined h.2)
      (CheckM.outcome_vetted hother ?_) hu fun a ha => Except.ok.inj ha ▸ ht
    rintro (h | ⟨n, hn, hnone, hhint, hnot⟩)
    · exact hdefined h
    · exact hnot (htuple n hn hnone hhint)
  rcases hrecall : s.recall e with ⟨known | t, memo⟩
  · rw [hrecall] at hinner hother hmemo
    have hinfer := F.inferOver e { s with memo } hmemo
    have hmoves := hinfer.moves
    have hresult := hinfer.result
    simp only at hinner hother
    rw [← hinfer.same] at hother
    rcases hout : (Check.inferOver inner e).outcome c { s with memo } with ⟨stop | t, u⟩
    · rw [hout] at hinner hother hmoves
      exact Settles.of_outcomes (CheckM.outcome_vetted_error hinner)
        (CheckM.outcome_vetted_error hother) hmoves.1 nofun
    · rw [hout] at hinner hother hmoves
      obtain ⟨hheld, hmember, htuple⟩ := hresult t u hout
      by_cases ht : t = .undefined
      · exact Settles.of_outcomes (CheckM.outcome_vetted_of hinner ⟨hmember ht, ht⟩)
          (CheckM.outcome_vetted_of hother (.inl ht)) hs nofun
      · have hsettled := hheld.resolve_left ht
        exact passes hsettled (hmoves.1.keeping e hsettled) (fun n hn _ => htuple n hn) hinner hother
  · have hknown : (s.recall e).1 = some t := congrArg Prod.fst hrecall
    have ht := hs.memo _ _ (Memo.getElem?_of_get hknown)
    rw [hrecall] at hinner hother hmemo
    refine passes ht hmemo (fun n _ hnone => ?_) hinner hother
    rw [hknown] at hnone
    cases hnone

theorem vetted :
    Settling c
      { inner.over with expr := fun e => CheckM.vetted .undefinedRead e (exprOver inner e) }
      { other.over with expr := fun e => CheckM.vetted .escape e (exprOver other e) } where
  context := F.context
  expr := F.vetted_exprOver
  block := F.blockOver
  call := F.callOver

end Settling

theorem settling_vettedUpTo (hc : c.Settled) (n : Nat) :
    Settling c (vettedUpTo .undefinedRead n) (vettedUpTo .escape n) := by
  -- By induction on the fuel.
  induction n with
  | zero => exact ⟨hc, fun _ => .throw _, fun _ => .throw _, fun _ _ _ => .throw _⟩
  | succ n ih => exact ih.vetted

theorem settled_startHere {world : World} (h : world.Settled) (path : String) (filter : Filter) :
    (start world none path filter).2.Settled := by
  refine ⟨h.arena, ?_, fun _ h => absurd h List.not_mem_nil, fun key kept hkept => ?_⟩
  · have hmodule := (h.scopes.enter (moduleName path)).of_all (t := _) rfl
    exact ((hmodule.set "__name__" (.prim _) _).set "__file__" (.prim _) _).set "__doc__" (.prim _) _
  · exact absurd (Std.TreeMap.getElem?_emptyc.symm.trans hkept) (Option.some_ne_none _).symm

theorem settled_start {world : World} (h : world.Settled) (parent : Option ScopeId) (path : String)
    (filter : Filter) : (start world parent path filter).2.Settled := by
  cases parent with
  | none => exact settled_startHere h path filter
  | some scope =>
    have hgone : (⟨world.arena, world.scopes.goTo scope⟩ : World).Settled :=
      ⟨h.arena, h.scopes.of_all rfl⟩
    exact settled_startHere hgone path filter

end Check

theorem World.settled_withBuiltins : withBuiltins.Settled := by
  have hbound := List.foldlRecOn Builtin.bindings
    (fun (s : Scopes) (entry : String × Ty) => s.set entry.1 entry.2 1.0) (b := {})
    (motive := Scopes.Settled) Scopes.settled_empty
    fun _ hs entry hentry => hs.set entry.1 (Ty.Settled.stable.bindings hentry) 1.0
  exact ⟨Arena.settled_empty, hbound⟩

namespace Job

variable (job : Job)

/-- A run comes to an end, and to the same one if it is vetted: there are no objections to the types that
expressions get. -/
def Clears (objection : Objection) : Prop :=
  ∃ final, ((vettedUpTo objection job.fuel).block job.module.body).outcome job.context job.start.2 =
      (.ok ⟨⟩, final) ∧
    ((innerUpTo job.fuel).block job.module.body).outcome job.context job.start.2 = (.ok ⟨⟩, final)

structure Settled : Prop where
  parent : ∀ table ∈ job.parent, table.world.Settled
  context : job.context.Settled

variable {job}

theorem Settled.start (h : job.Settled) : job.start.2.Settled := by
  refine settled_start ?_ _ _ _
  unfold world
  cases hparent : job.parent with
  | none => exact World.settled_withBuiltins
  | some table => exact h.parent table hparent

theorem settled_empty : empty.Settled where
  parent _ h := absurd h (Option.not_mem_none _)
  context := ⟨fun _ _ h => absurd h nofun, fun _ h => absurd h List.not_mem_nil⟩

theorem four_le_fuel (job : Job) : 4 ≤ job.fuel := by
  unfold fuel fuelFor
  simp only
  generalize hnodes : _ + 2 = nodes
  have h : 2 ≤ nodes := by omega
  have := Nat.mul_le_mul h h
  rw [Nat.mul_assoc]
  omega

/-- A table with a class that has one attribute and announces another one. -/
def attributed : SymbolTable where
  world :=
    { arena := (Arena.addClass {}
        { name := some "A", attributes := ⟨[("x", .value .int), ("y", .value .undefined)]⟩ }).2
      scopes := ({} : Scopes).set "A" (.classObj ⟨0⟩) 1.0 }
  scope := Scopes.global
  file := ""

theorem settled_attributed : attributed.world.Settled where
  arena := by
    refine Arena.settled_empty.addClass ⟨?_, fun _ h => absurd h (Option.not_mem_none _)⟩
    intro entry hentry
    simp only [List.mem_cons, List.not_mem_nil, or_false] at hentry
    obtain rfl | rfl := hentry
    · exact .inr (.prim .int)
    · exact .inl rfl
  scopes := Scopes.settled_empty.set "A" (.classObj ⟨0⟩) 1.0

/-- A run on the display of a tuple of the attribute that has a value. -/
def reading : Job :=
  { empty with
    module :=
      { body := [⟨0, .expr ⟨1, .tuple [⟨2, .member ⟨3, .name "A", default⟩ "x", default⟩], default⟩, default⟩]
        file := "", span := default }
    parent := some attributed }

theorem settled_reading : reading.Settled :=
  { settled_empty with parent := fun _ htable => Option.mem_some.1 htable ▸ settled_attributed }

theorem clears_reading : reading.Clears .undefinedRead := by
  obtain ⟨n, hn⟩ := Nat.exists_eq_add_of_le' reading.four_le_fuel
  let s := { reading.start.2 with hub := reading.start.2.hub.setLine (default : Span).line }
  let name : Expr := ⟨3, .name "A", default⟩
  let member : Expr := ⟨2, .member name "x", default⟩
  let tuple : Expr := ⟨1, .tuple [member], default⟩
  let named := keeping s name (.classObj ⟨0⟩)
  let read := keeping named member .int
  -- All three expressions are checked for the first time, vetted or not.
  have hname (inner : Inner) : (exprOver inner name).outcome reading.context s = (.ok (.classObj ⟨0⟩), named) := by
    refine outcome_exprOver_new Std.TreeMap.getElem?_emptyc rfl ?_
    exact outcome_evaluate_name (b := { type := .classObj ⟨0⟩, confidence := 1.0 }) rfl rfl
  have hmember {inner : Inner}
      (h : (inner.expr name).outcome reading.context s = (.ok (.classObj ⟨0⟩), named)) :
      (exprOver inner member).outcome reading.context s = (.ok .int, read) := by
    refine outcome_exprOver_new Std.TreeMap.getElem?_emptyc rfl ?_
    exact outcome_evaluate_attribute (by decide) rfl h rfl
  have htuple {inner : Inner} (h : (inner.expr member).outcome reading.context s = (.ok .int, read)) :
      (exprOver inner tuple).outcome reading.context s =
        (.ok (.tupleOf [.int]), keeping read tuple (.tupleOf [.int])) :=
    outcome_exprOver_new Std.TreeMap.getElem?_emptyc rfl (outcome_evaluate_single rfl h)
  have passes {k : Nat} {e : Expr} {t : Ty} {u : Session}
      (h : (exprOver (vettedUpTo .undefinedRead k) e).outcome reading.context s = (.ok t, u))
      (ht : t ≠ .undefined) :
      ((vettedUpTo .undefinedRead (k + 1)).expr e).outcome reading.context s = (.ok t, u) :=
    CheckM.outcome_vetted h fun ho => ht ho.2
  rw [Clears, hn]
  refine ⟨(CheckM.flush.outcome reading.context (keeping read tuple (.tupleOf [.int]))).2, ?_, ?_⟩
  · exact outcome_blockOver_expr (passes (htuple (passes (hmember (passes (hname _) nofun)) nofun)) nofun)
  · exact outcome_blockOver_expr (htuple (hmember (hname _)))

/-- If a run is given settled worlds, then no expression in it is undefined and no tuple that it displays
lacks an element, exactly if no attribute that it reads is undefined. -/
theorem Settled.clears_escape_iff (h : job.Settled) :
    job.Clears .escape ↔ job.Clears .undefinedRead := by
  have hsettling := settling_vettedUpTo h.context job.fuel
  have hsame := (hsettling.block job.module.body _ h.start).same
  unfold Clears
  rw [hsame]

theorem clears_escape_reading : reading.Settled ∧ reading.Clears .escape :=
  ⟨settled_reading, settled_reading.clears_escape_iff.2 clears_reading⟩

/-- The world that such a run makes is settled too. -/
theorem Settled.table (h : job.Settled) (hclears : job.Clears .undefinedRead) {outcome : Outcome}
    (hrun : job.run = .ok outcome) : outcome.table.world.Settled := by
  obtain ⟨final, hvetted, hplain⟩ := hclears
  have hmoves := ((settling_vettedUpTo h.context job.fuel).block job.module.body _ h.start).moves
  rw [hvetted] at hmoves
  rw [run_eq, hplain] at hrun
  cases hrun
  exact ⟨hmoves.1.arena, hmoves.1.scopes⟩

def assigning : FunctionDef Stmt where
  name := "m"
  params := { args := [{ name := "self", ascription := none, span := default }] }
  body := [⟨3, .assign [⟨4, .member ⟨5, .name "self", default⟩ "x", default⟩]
    ⟨6, .number (.int 1), default⟩, default⟩]
  returns := none
  decorators := []
  isAsync := false
  span := default

def announcement : Stmt :=
  ⟨1, .classDef { name := "A", bases := [], keywords := [], decorators := [], span := default
                  body := [⟨2, .functionDef assigning, default⟩] }, default⟩

def announced : Expr :=
  ⟨11, .member ⟨12, .name "A", default⟩ "x", default⟩

def display : Expr :=
  ⟨9, .tuple [announced], default⟩

def announcing : Job :=
  { empty with
    module := { body := [announcement, ⟨8, .expr display, default⟩], file := "", span := default }
    settings := { eagerCheckAnnotated := false } }

def announcing.depth : Nat :=
  announcing.fuel - 1

def announces (s : Session) : Bool :=
  s.memo.entries.isEmpty && (s.scopes.lookup "A").any (·.type matches .classObj ⟨0⟩) &&
    ((s.arena.classAt ⟨0⟩).attributes.get? "x").any (· matches .value .undefined)

theorem announces_announcement :
    (match (checkStmt (innerUpTo announcing.depth) announcement).outcome announcing.context
        announcing.start.2 with
      | (.ok _, s) => announces s
      | (.error _, _) => false) = true := by
  decide +kernel

theorem outcome_announced {s : Session} (n : Nat) (h : announces s = true) :
    ∃ u, (exprOver (innerUpTo (n + 1)) announced).outcome announcing.context s =
      (.ok .undefined, u) := by
  simp only [announces, Bool.and_eq_true] at h
  obtain ⟨⟨hempty, hlookup⟩, hclass⟩ := h
  obtain ⟨b, hb, hA⟩ := (Option.any_eq_true _ _).1 hlookup
  obtain ⟨slot, hslot, hx⟩ := (Option.any_eq_true _ _).1 hclass
  have hA : b.type = .classObj ⟨0⟩ := by
    split at hA
    · assumption
    · cases hA
  have hx : (s.arena.classAt ⟨0⟩).attributes.get? "x" = some (.value .undefined) := by
    split at hx
    · exact hslot
    · cases hx
  have hmemo (key : String × Nat) : s.memo.entries[key]? = none :=
    Std.TreeMap.getElem?_of_isEmpty hempty
  have hname : (exprOver (innerUpTo n) ⟨12, .name "A", default⟩).outcome announcing.context s =
      (.ok (.classObj ⟨0⟩), keeping s ⟨12, .name "A", default⟩ (.classObj ⟨0⟩)) := by
    refine outcome_exprOver_new (hmemo _) rfl ?_
    rw [outcome_evaluate_name hb (by rw [hA]; rfl), hA]
  exact ⟨_, outcome_exprOver_new (hmemo _) rfl
    (outcome_evaluate_attribute (by decide) rfl hname hx)⟩

/-- After the definition of a class, an attribute that it announces is undefined, and a tuple that is
displayed with it has no element. -/
theorem undefined_escapes :
    ∃ s, (checkStmt (innerUpTo announcing.depth) announcement).outcome announcing.context
        announcing.start.2 = (.ok ⟨⟩, s) ∧
      (((innerUpTo announcing.depth).expr announced).outcome announcing.context s).1 =
        .ok .undefined ∧
      display.Displays 1 ∧
      (((innerUpTo announcing.depth).expr display).outcome announcing.context s).1 =
        .ok (.tupleOf [.undefined]) ∧
      ¬(Ty.tupleOf [.undefined]).IsTuple 1 := by
  obtain ⟨n, hn⟩ : ∃ n, announcing.depth = n + 3 :=
    Nat.exists_eq_add_of_le' (Nat.le_sub_of_add_le announcing.four_le_fuel)
  have hdefined := announces_announcement
  split at hdefined
  case h_2 => cases hdefined
  rename_i s hs
  have hread (k : Nat) := outcome_announced k hdefined
  have hnew : s.memo.entries[(display.span.start.file, display.id)]? = none := by
    simp only [announces, Bool.and_eq_true] at hdefined
    exact Std.TreeMap.getElem?_of_isEmpty hdefined.1.1
  refine ⟨s, hs, ?_, ⟨_, rfl, by simp [announced, Expr.starred?], rfl⟩, ?_, ?_⟩
  · obtain ⟨u, hu⟩ := hread (n + 1)
    rw [hn]
    exact congrArg Prod.fst hu
  · obtain ⟨u, hu⟩ := hread n
    rw [hn]
    exact exprOver_new hnew rfl (congrArg Prod.fst (outcome_evaluate_single rfl hu))
  · rintro ⟨model, hmodel, -, hlength⟩
    cases hmodel
    cases hlength

end Job

end Credence

import Credence.Proofs.Watch

namespace Credence

open Check Discipline

namespace Session

/-- The keys of the functions whose bodies are being checked, the innermost first. -/
def openKeys (s : Session) : List String :=
  s.frames.map fun frame => (s.arena.functionAt frame.function).guardKey

/-- The guard agrees with the bodies that are being checked, no two of which have one key. -/
structure GuardAgrees (s : Session) : Prop where
  nodup : s.openKeys.Nodup
  busy : ∀ key, s.guard.isBusy key = true ↔ key ∈ s.openKeys
  depth : s.guard.depth = s.frames.length

/-- The bodies of some functions are being checked, and the guard has their keys. -/
structure Checks (s : Session) (ids : List FunctionId) : Prop where
  frames : s.frames.map (·.function) = ids
  busy : s.guard.busy = ids.map fun id => (s.arena.functionAt id).guardKey
  nodup : s.guard.busy.Nodup
  depth : s.guard.depth = ids.length

variable {s t : Session} {ids : List FunctionId}

theorem Checks.guardAgrees (h : s.Checks ids) : s.GuardAgrees := by
  have hkeys : s.openKeys = s.guard.busy := by
    rw [h.busy, ← h.frames, List.map_map]
    rfl
  constructor
  case nodup => exact hkeys ▸ h.nodup
  case busy =>
    intro key
    rw [hkeys]
    exact List.contains_iff_mem
  case depth => rw [h.depth, ← h.frames, List.length_map]

theorem Checks.of_keys {a : Arena} (h : s.Checks ids)
    (hkeys : ∀ id ∈ ids, (a.functionAt id).guardKey = (s.arena.functionAt id).guardKey) :
    { s with arena := a }.Checks ids := by
  have hsame := List.map_congr_left fun id hid => (hkeys id hid).symm
  exact { h with busy := h.busy.trans hsame }

theorem Checks.of_same (h : s.Checks ids) (hfunctions : t.arena.functions = s.arena.functions)
    (hguard : t.guard = s.guard)
    (hframes : t.frames.map (·.function) = s.frames.map (·.function)) : t.Checks ids := by
  have hsame (id : FunctionId) : t.arena.functionAt id = s.arena.functionAt id := by
    rw [Arena.functionAt, hfunctions]
    rfl
  refine ⟨hframes.trans h.frames, ?_, hguard ▸ h.nodup, hguard ▸ h.depth⟩
  simp only [hsame, hguard, h.busy]

theorem Checks.entering {guard : Guard} {id : FunctionId} (arguments : List (String × Ty))
    (h : s.Checks ids) (hguard : s.guard.enter? (s.arena.functionAt id).guardKey = some guard) :
    (Session.entering { s with guard } id (s.arena.functionAt id) arguments).Checks (id :: ids) := by
  obtain ⟨hfree, rfl⟩ := Guard.enter?_eq_some.1 hguard
  constructor
  case frames => exact congrArg (id :: ·) h.frames
  case busy => exact congrArg ((s.arena.functionAt id).guardKey :: ·) h.busy
  case nodup => exact List.nodup_cons.2 ⟨hfree, h.nodup⟩
  case depth => exact congrArg (· + 1) h.depth

theorem Checks.leaving {id : FunctionId} {f : FunctionInfo} (h : t.Checks (id :: ids))
    (hs : s.Checks ids) (hleft : s.Balanced (s.leaving t f)) (hlast : t.guard.busy.tail = s.guard.busy) :
    (s.leaving t f).Checks ids := by
  constructor
  case frames => exact hleft.frames.trans hs.frames
  case busy =>
    rw [hleft.guard, ← hlast, h.busy]
    rfl
  case nodup => exact hleft.guard ▸ hs.nodup
  case depth => exact hleft.guard ▸ hs.depth

end Session

def Discipline.checking (ids : List FunctionId) : Discipline where
  inv s := s.Checks ids ∧ ∀ id ∈ ids, id.val < s.arena.functions.size
  le := Session.Balanced
  stop := fun _ => True
  le_refl := Session.Balanced.refl
  le_trans := Session.Balanced.trans

def Discipline.still (functions : Array FunctionInfo) (ids : List FunctionId) : Discipline where
  inv s := s.Checks ids ∧ s.arena.functions = functions
  le := Session.Balanced
  stop := fun _ => True
  le_refl := Session.Balanced.refl
  le_trans := Session.Balanced.trans

theorem balancing_checking (ids : List FunctionId) : (checking ids).Balancing where
  le := .rfl
  inv hs hfunctions hguard _ hframes _ :=
    ⟨hs.1.of_same hfunctions hguard hframes, hfunctions ▸ hs.2⟩

theorem balancing_still (functions : Array FunctionInfo) (ids : List FunctionId) :
    (still functions ids).Balancing where
  le := .rfl
  inv hs hfunctions hguard _ hframes _ :=
    ⟨hs.1.of_same hfunctions hguard hframes, hfunctions.trans hs.2⟩

theorem fair_checking (ids : List FunctionId) (c : Context) :
    (checking ids).Fair c fun _ _ _ => True where
  fault _ := trivial
  define {s f} hs _ := by
    have hsame (id : FunctionId) (hid : id ∈ ids) :
        (s.arena.addFunction f).2.functionAt id = s.arena.functionAt id :=
      getD_push_of_lt (hs.2 id hid)
    refine ⟨hs.1.of_keys fun id hid => by rw [hsame id hid], fun id hid => ?_⟩
    exact Nat.lt_of_lt_of_le (hs.2 id hid) (by simp [Arena.addFunction])
  takeIn {_ s a _} _ hs htaken _ :=
    ⟨Session.Checks.of_same (s := { s with arena := a })
        (hs.1.of_keys fun id hid => by rw [htaken.old id (hs.2 id hid)]) rfl rfl rfl,
      fun id hid => Nat.lt_of_lt_of_le (hs.2 id hid) htaken.size⟩
  grounded _ := .inr trivial

theorem Arena.guardKey_remember (a : Arena) (id other : FunctionId) (key : CallKey) (result : Ty) :
    ((a.modifyFunction other (·.remember key result)).functionAt id).guardKey =
      (a.functionAt id).guardKey :=
  getD_modify_rec (p := fun f : FunctionInfo => f.guardKey = (a.functionAt id).guardKey) rfl fun _ => rfl

section Calls

variable {n : Nat} {c : Context} {ok : Moment → Session → Bool} {u : Session} {ids : List FunctionId}

theorem Discipline.Balancing.exprOver_default {D : Discipline} (hD : D.Balancing) (inner other : Inner) :
    D.Holds c (exprOver inner default) (exprOver other default) := by
  refine Basic.stamp.bind fun before => Holds.bind (.modifyGet fun s hs => ?_) fun known => ?_
  · exact hD.minor hs (s.minor_recall _ _ before)
  cases known with
  | some t => exact .pure t
  | none =>
    refine Holds.bind (Holds.pure Ty.any) fun inferred => (Basic.hint? _).bind fun hint => .get_bind fun s hs => ?_
    exact Ends.of_ok rfl (hD.minor hs (s.minor_store _ _ _ rfl))

theorem holds_missing (hok : ∀ m s, s.GuardAgrees → ok m s = true) (functions : Array FunctionInfo)
    (n : Nat) :
    (still functions ids).Holds c (evaluateBody (innerUpTo n) (default : FunctionInfo).body)
      (evaluateBody (watchedUpTo ok u n) (default : FunctionInfo).body) := by
  cases n with
  | zero => exact Holds.map some (.throw trivial)
  | succ n =>
    have hexpr := (balancing_still functions ids).exprOver_default (c := c) (innerUpTo n)
      (watchedUpTo ok u n)
    exact Holds.map some (hexpr.watched _ fun m s hs => hok m s hs.1.guardAgrees)

theorem ends_runBody_checking
    (L : ∀ ids, (checking ids).Level c (fun _ _ _ => True) (fun _ => True) (fun _ => True) (innerUpTo n)
      (watchedUpTo ok u n))
    (hok : ∀ m s, s.GuardAgrees → ok m s = true) {s : Session} {guard : Guard} {id : FunctionId}
    (arguments : List (String × Ty)) (hs : (checking ids).inv s)
    (hguard : s.guard.enter? (s.arena.functionAt id).guardKey = some guard) :
    (checking ids).Ends c (runBody (innerUpTo n) id (s.arena.functionAt id) arguments)
      (runBody (watchedUpTo ok u n) id (s.arena.functionAt id) arguments) s { s with guard } := by
  have hentered := hs.1.entering arguments hguard
  have hlast (t : Session) (ht : (Session.entering { s with guard } id (s.arena.functionAt id)
      arguments).Balanced t) : t.guard.busy.tail = s.guard.busy := by
    obtain ⟨-, rfl⟩ := Guard.enter?_eq_some.1 hguard
    rw [ht.guard]
    rfl
  by_cases hid : id.val < s.arena.functions.size
  · refine (balancing_checking ids).ends_runBody (balancing_checking (id :: ids)) hguard
      ⟨hentered, List.forall_mem_cons.2 ⟨hid, hs.2⟩⟩ ?_ (fun _ h => h) fun t ht hb hleft => ?_
    · exact (L (id :: ids)).evaluateBody (by cases (s.arena.functionAt id).body <;> trivial)
    · exact ⟨ht.1.leaving hs.1 hleft (hlast t hb), (List.forall_mem_cons.1 ht.2).2⟩
  · -- A function that is not there could be defined in the course of its body, but that defines none.
    have hnone : s.arena.functionAt id = default := getD_of_not_lt hid
    refine (balancing_checking ids).ends_runBody (balancing_still s.arena.functions (id :: ids)) hguard
      ⟨hentered, rfl⟩ ?_ (fun _ h => h) fun t ht hb hleft => ?_
    · rw [hnone]
      exact holds_missing hok _ n
    · exact ⟨ht.1.leaving hs.1 hleft (hlast t hb), ht.2 ▸ hs.2⟩

theorem holds_callOver_checking
    (L : ∀ ids, (checking ids).Level c (fun _ _ _ => True) (fun _ => True) (fun _ => True) (innerUpTo n)
      (watchedUpTo ok u n))
    (hok : ∀ m s, s.GuardAgrees → ok m s = true) (id : FunctionId) (receiver : Option Ty)
    (args : CallArgs) :
    (checking ids).Holds c (callOver (innerUpTo n) id receiver args)
      (callOver (watchedUpTo ok u n) id receiver args) := by
  refine Balancing.callOver (L ids).toBasic id receiver args fun s arguments hs => ?_
  refine (balancing_checking ids).resultOver hs
    (fun guard hguard => ends_runBody_checking L hok arguments hs hguard) ?_
  intro guard inferred t hguard hrun ht
  refine ⟨ht.1.of_keys fun other _ => t.arena.guardKey_remember other id _ _, fun other hother => ?_⟩
  exact Nat.lt_of_lt_of_eq (ht.2 other hother) Array.size_modify.symm

theorem level_checking (hok : ∀ m s, s.GuardAgrees → ok m s = true) (c : Context) (n : Nat)
    (ids : List FunctionId) :
    (checking ids).Level c (fun _ _ _ => True) (fun _ => True) (fun _ => True) (innerUpTo n)
      (watchedUpTo ok u n) := by
  induction n generalizing ids with
  | zero =>
    exact
      { (balancing_checking ids).lawful (fair_checking ids c) fun _ hs => ⟨hs.1.of_same rfl rfl rfl, hs.2⟩ with
        expr := fun _ => .throw trivial
        block := fun _ => .throw trivial
        call := fun _ _ _ => .throw trivial
        children := fun _ _ => trivial }
  | succ n ih =>
    exact (ih ids).watched (fun m s hs => hok m s hs.1.guardAgrees)
      fun id receiver args => holds_callOver_checking ih hok id receiver args

end Calls

namespace Job

variable (job : Job)

theorem checks_start : job.start.2.Checks [] :=
  ⟨rfl, rfl, List.nodup_nil, rfl⟩

open Classical in
/-- What holds of all sessions in which the guard agrees holds at each moment of a run. -/
theorem always_of_guardAgrees {P : Moment → Session → Prop} (h : ∀ m s, s.GuardAgrees → P m s) :
    job.Always P := by
  intro u
  have hlevel := level_checking (u := u) (fun m s hs => decide_eq_true (h m s hs)) job.context job.fuel []
  exact (hlevel.block trivial _ ⟨job.checks_start, fun _ hid => absurd hid List.not_mem_nil⟩).same.symm

/-- Wherever a run begins or ends a statement, an expression or a call, the guard agrees with the bodies that
are being checked. When a body is left its key is busy, and the guard is as deep as it was when the key was
marked, so that there is a body to be counted off. -/
theorem guard_agrees :
    job.Always (fun _ t => t.GuardAgrees) ∧
      ∀ (c : Context) (n : Nat) (s : Session) (id : FunctionId) (arguments : List (String × Ty))
        (guard : Guard), s.guard.enter? (s.arena.functionAt id).guardKey = some guard →
        let t := ((evaluateBody (innerUpTo n) (s.arena.functionAt id).body).outcome c
          (Session.entering { s with guard } id (s.arena.functionAt id) arguments)).2
        t.guard.isBusy (s.arena.functionAt id).guardKey = true ∧ t.guard.depth = s.guard.depth + 1 := by
  refine ⟨job.always_of_guardAgrees fun _ _ h => h, ?_⟩
  intro c n s id arguments guard hguard
  have hmet : Met (fun _ => True) (fun _ => True) (s.arena.functionAt id).body := by
    cases (s.arena.functionAt id).body <;> trivial
  have hbody := (level_innerUpTo c n).evaluateBody hmet
  have hkept := (hbody (Session.entering { s with guard } id (s.arena.functionAt id) arguments)
    trivial).moves.2.guard
  obtain ⟨-, rfl⟩ := Guard.enter?_eq_some.1 hguard
  constructor
  · rw [Guard.isBusy, hkept]
    exact List.contains_iff_mem.2 List.mem_cons_self
  · rw [hkept]
    rfl

/-- After the run on `relay`, the body of `f` has been entered again. -/
def relay.inside : Session :=
  let f := relay.final.arena.functionAt ⟨2⟩
  Session.entering { relay.final with guard := ⟨[f.guardKey], 1⟩ } ⟨2⟩ f [("n", .int)]

/-- In the run `f` has called `g`. When `g` is entered from the body of `f`, its key is busy until its body ends. -/
theorem guard_agrees_relay :
    relay.Always (fun _ t => t.GuardAgrees) ∧
      ∃ s guard, s = relay.inside ∧ s.arena.functions.all (fun f => !f.calls.isEmpty) = true ∧
        s.guard.depth = 1 ∧ s.guard.enter? (s.arena.functionAt ⟨1⟩).guardKey = some guard ∧
        let t := ((evaluateBody (innerUpTo relay.fuel) (s.arena.functionAt ⟨1⟩).body).outcome relay.context
          (Session.entering { s with guard } ⟨1⟩ (s.arena.functionAt ⟨1⟩) [("n", .int)])).2
        t.guard.isBusy (s.arena.functionAt ⟨1⟩).guardKey = true ∧ t.guard.depth = s.guard.depth + 1 := by
  have hinside : decide (relay.inside.arena.functions.all (fun f => !f.calls.isEmpty) = true ∧
      relay.inside.guard.depth = 1 ∧
      (relay.inside.guard.enter? (relay.inside.arena.functionAt ⟨1⟩).guardKey).isSome = true) = true := by
    decide +kernel
  obtain ⟨hcalled, hdepth, hfree⟩ := of_decide_eq_true hinside
  obtain ⟨guard, hguard⟩ := Option.isSome_iff_exists.1 hfree
  refine ⟨relay.guard_agrees.1, relay.inside, guard, rfl, hcalled, hdepth, hguard, ?_⟩
  exact relay.guard_agrees.2 relay.context relay.fuel relay.inside ⟨1⟩ [("n", .int)] guard hguard

end Job

end Credence

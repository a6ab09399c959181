import Credence.Proofs.Mentions
import Credence.Proofs.Recall

namespace Credence

open Check CheckM Discipline

namespace FunctionInfo

/-- The body was run to its end, where the names that it reads had the types of the key, and gave the result. -/
def Gave (f : FunctionInfo) (c : Context) (id : FunctionId) (key : CallKey) (result : Ty) : Prop :=
  ∃ (n : Nat) (s t : Session) (inferred : Ty), s.Placed ∧ f.capturedView s.scopes = key.captured ∧
    (runBody (innerUpTo n) id f key.arguments).outcome c s = (.ok inferred, t) ∧
    result = f.declared?.getD inferred

/-- A function that reads the names in its body, and remembers only calls from before and those that its body
gave. -/
structure Traced (before : Array FunctionInfo) (c : Context) (i : Nat) (f : FunctionInfo) : Prop where
  reads : f.reads = f.body.names
  calls : ∀ call ∈ f.calls, call ∈ (before.getD i default).calls ∨ f.bare.Gave c ⟨i⟩ call.1 call.2

variable {before : Array FunctionInfo} {c : Context} {i : Nat} {f g : FunctionInfo}

theorem reads_default : (default : FunctionInfo).reads = (default : FunctionInfo).body.names := by
  rw [show (default : FunctionInfo).body.names = (default : Expr).namesOnto [] from rfl, Expr.namesOnto_eq]
  rfl

theorem Traced.of_calls (hreads : f.reads = f.body.names) (hcalls : f.calls = []) : f.Traced before c i where
  reads := hreads
  calls _ hcall := absurd hcall (hcalls ▸ List.not_mem_nil)

theorem Traced.of_copied {R : Entry → Entry → Prop} (h : f.Copied R g) (hf : f.reads = f.body.names) :
    g.Traced before c i := by
  have hreads : g.reads = f.reads := (congrArg FunctionInfo.reads h.same :)
  have hbody : g.body = f.body := (congrArg FunctionInfo.body h.same :)
  refine .of_calls ?_ h.calls
  rw [hreads, hbody, hf]

theorem Traced.remember (h : f.Traced before c i) {key : CallKey} {result : Ty}
    (hgave : f.bare.Gave c ⟨i⟩ key result) : (f.remember key result).Traced before c i where
  reads := h.reads
  calls call hcall := by
    rcases List.mem_append.1 hcall with hcall | hcall
    · exact h.calls call (List.mem_filter.1 hcall).1
    · obtain rfl := List.mem_singleton.1 hcall
      exact .inr hgave

end FunctionInfo

namespace Session

theorem Placed.entering {s : Session} (h : s.Placed) (guard : Guard) (id : FunctionId) (f : FunctionInfo)
    (arguments : List (String × Ty)) : (Session.entering { s with guard } id f arguments).Placed := by
  refine h.of_scopes (h.scopes.enterFunction f.name f.captured arguments) ?_ rfl
  simp [Session.entering, Scopes.enterFunction, Scopes.alloc, Scopes.touch]

theorem Placed.leaving {t : Session} (h : t.Placed) (s : Session) (f : FunctionInfo) : (s.leaving t f).Placed :=
  h.of_scopes h.scopes.exitFunction t.scopes.size_exitFunction.ge rfl

end Session

def Discipline.tracing (before : Array FunctionInfo) (c : Context) : Discipline where
  inv s := s.Placed ∧ ∀ i, (s.arena.functions.getD i default).Traced before c i
  le := Session.Balanced
  stop _ := True
  le_refl := Session.Balanced.refl
  le_trans := Session.Balanced.trans

/-- The worlds of all tables that are offered have scopes that form a tree, and functions that read the names in
their bodies. -/
def Context.Attentive (c : Context) : Prop :=
  ∀ table, c.modules.Offers table → table.world.scopes.Formed ∧
    ∀ i, (table.world.arena.functions.getD i default).reads =
      (table.world.arena.functions.getD i default).body.names

section Levels

variable {before : Array FunctionInfo} {c : Context} {p : Session → Prop} {u s : Session}

theorem balancing_tracing (before : Array FunctionInfo) (c : Context) : (tracing before c).Balancing where
  le := .rfl
  inv hs hfunctions _ _ _ hplaced := ⟨hplaced hs.1, hfunctions ▸ hs.2⟩

theorem fair_tracing (h : c.Attentive) : (tracing before c).Fair c fun _ _ _ => True where
  fault _ := trivial
  define hs hf := ⟨{ hs.1 with }, fun i => getD_push_rec (fun _ => hs.2 i) fun _ => .of_calls hf.reads hf.calls⟩
  takeIn {table s a _} hoffers hs htaken hplaced := by
    obtain ⟨hformed, hreads⟩ := h _ hoffers
    refine ⟨hplaced hformed hs.1, fun i => ?_⟩
    change (a.functionAt ⟨i⟩).Traced before c i
    by_cases hold : i < s.arena.functions.size
    · rw [htaken.old ⟨i⟩ hold]
      exact hs.2 i
    by_cases hi : i < a.functions.size
    · obtain ⟨original, R, hcopied⟩ := htaken.new ⟨i⟩ hi hold
      exact .of_copied hcopied (hreads original.val)
    · have hnone : a.functionAt ⟨i⟩ = default := getD_of_not_lt hi
      rw [hnone]
      exact .of_calls FunctionInfo.reads_default rfl
  grounded _ := .inr trivial

theorem level_tracing (h : c.Attentive) (hp : ∀ s, (tracing before c).inv s → ¬p s) (n : Nat) :
    (tracing before c).Level c (fun _ _ _ => True) (fun _ => True) (fun _ => True) (innerUpTo n)
      (interruptedUpTo p u n) := by
  have hD := balancing_tracing before c
  have law := hD.lawful (fair_tracing h) fun _ hs => ⟨{ hs.1 with }, hs.2⟩
  induction n with
  | zero =>
    have level : (tracing before c).Level c (fun _ _ _ => True) (fun _ => True) (fun _ => True)
        (innerUpTo 0) (innerUpTo 0) :=
      { law with
        expr := fun _ => .throw trivial
        block := fun _ => .throw trivial
        call := fun _ _ _ => .throw trivial
        children := fun _ _ => trivial }
    exact level.interrupted hp
  | succ n ih =>
    have call (id : FunctionId) (receiver : Option Ty) (args : CallArgs) :
        (tracing before c).Holds c (callOver (innerUpTo n) id receiver args)
          (callOver (interruptedUpTo p u n) id receiver args) := by
      refine Balancing.callOver law.toBasic id receiver args fun s arguments hs => ?_
      refine hD.resultOver hs (fun guard hguard => ?_) fun guard inferred t hguard hrun ht => ?_
      · refine hD.ends_runBody hD hguard ⟨?_, hs.2⟩ (ih.evaluateBody ?_) (fun _ h => h)
          fun t ht _ _ => ⟨?_, ht.2⟩
        · exact hs.1.entering guard id _ arguments
        · cases (s.arena.functionAt id).body <;> trivial
        · exact ht.1.leaving s _
      · refine ⟨{ ht.1 with }, fun i => getD_modify_rec (ht.2 i) fun hi => ?_⟩
        subst hi
        refine (ht.2 id.val).remember ?_
        have hbare : (t.arena.functionAt id).bare = (s.arena.functionAt id).bare := bare_runBody rfl hguard hrun
        change (t.arena.functionAt id).bare.Gave c id _ _
        rw [hbare]
        exact ⟨n, { s with guard }, t, inferred, { hs.1 with }, rfl, hrun, rfl⟩
    have level : (tracing before c).Level c (fun _ _ _ => True) (fun _ => True) (fun _ => True)
        (innerUpTo n).over (interruptedUpTo p u n).over :=
      { law with
        expr := fun _ => ih.exprOver ⟨fun _ _ => trivial, fun _ _ _ => trivial⟩
        block := fun _ => ih.blockOver fun _ _ =>
          ⟨fun _ _ => trivial, fun _ _ => trivial, fun _ _ => trivial, fun _ _ => trivial,
            fun _ _ => trivial⟩
        call := call
        children := fun _ _ => trivial }
    exact level.interrupted hp

end Levels

theorem World.Sound.formed {w : World} (h : w.Sound) : w.scopes.Formed :=
  h.scopes.formed fun _ hid => hid

theorem Session.Founded.placed {s : Session} (h : s.Founded) : s.Placed where
  scopes := h.scopes.formed fun _ hid => hid
  memo key kept hkept := (h.memo key kept hkept).2

namespace Job

variable {job : Job} {t : Session}

theorem Sound.tracing_start (h : job.Sound) (hparent : ∀ table ∈ job.parent, ∀ i,
      (table.world.arena.functions.getD i default).reads =
        (table.world.arena.functions.getD i default).body.names) :
    (tracing job.world.arena.functions job.context).inv job.start.2 := by
  refine ⟨h.start.1.placed, fun i => ⟨?_, fun call hcall => .inl hcall⟩⟩
  change (job.world.arena.functions.getD i default).reads = (job.world.arena.functions.getD i default).body.names
  unfold world
  cases hjob : job.parent with
  | none => exact FunctionInfo.reads_default
  | some table => exact hparent table hjob i

end Job

theorem SymbolTable.Produced.reads {table : SymbolTable} (h : table.Produced) (i : Nat) :
    (table.world.arena.functions.getD i default).reads =
      (table.world.arena.functions.getD i default).body.names := by
  induction h generalizing i with
  | @run job outcome parent modules plain hints hrun parents offered =>
    have hproper : job.Proper := ⟨parent, modules, plain, hints⟩
    have hattentive : job.context.Attentive := fun table hoffers =>
      have ⟨_, hmem⟩ := hoffers.mem
      ⟨(modules _ hmem).sound.world.formed, offered _ hmem⟩
    have hlevel : (tracing job.world.arena.functions job.context).Level job.context (fun _ _ _ => True)
        (fun _ => True) (fun _ => True) (innerUpTo job.fuel) (interruptedUpTo (fun _ => False) job.start.2 job.fuel) :=
      level_tracing hattentive (fun _ _ h => h) job.fuel
    have hmoves := (hlevel.block (b := job.module.body) trivial _ (hproper.sound.tracing_start parents)).moves
    rw [Job.run_eq] at hrun
    split at hrun
    · rename_i hfinal
      rw [hfinal] at hmoves
      cases hrun
      exact (hmoves.1.2 i).reads
    · cases hrun

namespace Job

variable {job : Job} {t : Session}

theorem Proper.attentive (h : job.Proper) : job.context.Attentive := by
  intro table hoffers
  obtain ⟨_, hmem⟩ := hoffers.mem
  exact ⟨(h.modules _ hmem).sound.world.formed, (h.modules _ hmem).reads⟩

/-- Wherever a run comes to, what a function remembers it remembered before, or its body gave it. -/
theorem Proper.traced_of_visits (h : job.Proper) (ht : job.Visits t) (id : FunctionId) :
    (t.arena.functionAt id).Traced job.world.arena.functions job.context id.val := by
  let D := tracing job.world.arena.functions job.context
  suffices D.inv t from this.2 id.val
  by_contra hn
  obtain ⟨u, hne⟩ := ht
  have hp (s : Session) (hs : D.inv s) : s ≠ t := fun heq => hn (heq ▸ hs)
  have hstart := h.sound.tracing_start fun table htable => (h.parent table htable).reads
  exact hne ((level_tracing h.attentive hp job.fuel).block trivial _ hstart).same.symm

end Job

end Credence

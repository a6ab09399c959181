import Credence.Proofs.Copier
import Credence.Proofs.Formed
import Credence.Proofs.Statement

namespace Credence

namespace Scopes

/-- A run stands where it stood, in a tree of scopes that may have grown. -/
structure Kept (s t : Scopes) : Prop where
  current : t.current = s.current
  saved : t.saved = s.saved
  size : s.all.size ≤ t.all.size
  parents : ∀ id : ScopeId, id.val < s.all.size → (t.scopeAt id).parent = (s.scopeAt id).parent

theorem Kept.refl (s : Scopes) : s.Kept s :=
  ⟨rfl, rfl, Nat.le_refl _, fun _ _ => rfl⟩

theorem Kept.trans {s t u : Scopes} (h : s.Kept t) (k : t.Kept u) : s.Kept u where
  current := k.current.trans h.current
  saved := k.saved.trans h.saved
  size := Nat.le_trans h.size k.size
  parents id hid := (k.parents id (Nat.lt_of_lt_of_le hid h.size)).trans (h.parents id hid)

theorem Steady.kept {s t : Scopes} (h : s.Steady t) : s.Kept t := by
  refine ⟨h.current, h.saved, Nat.le_of_eq h.size.symm, ?_⟩
  intro id _
  exact h.parents id

theorem Kept.mem_walk {s t : Scopes} (h : s.Kept t) {steps : Nat} {start id : ScopeId}
    (hid : id ∈ s.walk steps start) : id ∈ t.walk steps start := by
  induction steps generalizing start with
  | zero => exact absurd hid List.not_mem_nil
  | succ steps ih =>
    rw [walk] at hid ⊢
    rcases List.mem_cons.1 hid with rfl | hid
    · exact List.mem_cons_self
    refine List.mem_cons_of_mem _ ?_
    cases hparent : (s.scopeAt start).parent with
    | none =>
      rw [hparent] at hid
      exact absurd hid List.not_mem_nil
    | some parent =>
      have hstart : start.val < s.all.size := by
        by_contra hout
        have hdefault : s.scopeAt start = default := getD_of_not_lt hout
        rw [hdefault] at hparent
        cases hparent
      rw [hparent] at hid
      rw [h.parents start hstart, hparent]
      exact ih hid

theorem Kept.encloses {s t : Scopes} (h : s.Kept t) {id : ScopeId} (hid : s.Encloses id) :
    t.Encloses id := by
  rcases hid with hglobal | ⟨steps, hmem⟩
  · exact .inl hglobal
  · exact .inr ⟨steps, h.current ▸ h.mem_walk hmem⟩

section Brackets

variable {s t : Scopes} {name : String}

theorem scopeAt_of_push {scope : Scope} {id : ScopeId} (hid : id.val < s.all.size)
    (hall : t.all = s.all.push scope) : t.scopeAt id = s.scopeAt id := by
  rw [scopeAt, hall, getD_push_of_lt hid]
  rfl

theorem Kept.parent_of_enter (h : (s.enter name).2.Kept t) : t.here.parent = some s.current := by
  have hnew : (s.enter name).2.current.val < (s.enter name).2.all.size := by
    simp [enter, alloc, touch]
  rw [here, h.current, h.parents _ hnew]
  exact congrArg Scope.parent (getD_push_size s.all _)

theorem Kept.of_enter (h : (s.enter name).2.Kept t) : s.Kept { t with current := s.current } where
  current := rfl
  saved := h.saved
  size := Nat.le_trans (by simp [enter, alloc, touch]) h.size
  parents id hid := by
    have hlt : id.val < (s.enter name).2.all.size := by
      simp only [enter, alloc, touch, Array.size_push]
      omega
    refine (h.parents id hlt).trans ?_
    rw [scopeAt_of_push hid rfl]

theorem Kept.exit (h : (s.enter name).2.Kept t) : s.Kept t.exit := by
  unfold Scopes.exit
  rw [h.parent_of_enter]
  exact h.of_enter.trans (steady_touch _).kept

theorem Kept.exitBranch (h : (s.enter name).2.Kept t) (a : Arena) : s.Kept (t.exitBranch a) := by
  unfold Scopes.exitBranch
  rw [h.parent_of_enter]
  exact h.of_enter.trans ((steady_mergeBindings a _ _).trans (steady_touch _)).kept

theorem Kept.exitFunction {captured : ScopeId} {params : List (String × Ty)}
    (h : (s.enterFunction name captured params).2.Kept t) : s.Kept t.exitFunction := by
  have hsaved : t.saved = s.current :: s.saved := h.saved
  unfold Scopes.exitFunction
  rw [hsaved]
  refine ⟨rfl, rfl, Nat.le_trans (by simp [enterFunction, alloc, touch]) h.size, ?_⟩
  intro id hid
  have hlt : id.val < (s.enterFunction name captured params).2.all.size := by
    simp only [enterFunction, alloc, touch, Array.size_push]
    omega
  refine (h.parents id hlt).trans ?_
  rw [scopeAt_of_push hid rfl]

end Brackets

end Scopes

namespace Session

/-- All that is open in one session is open in the other, and nothing else is. -/
structure Balanced (s t : Session) : Prop where
  scopes : s.scopes.Kept t.scopes
  frames : t.frames.map (·.function) = s.frames.map (·.function)
  classScopes : t.classScopes = s.classScopes
  suppressions : t.hub.suppressions = s.hub.suppressions
  guard : t.guard = s.guard
  file : t.hub.cursor.file = s.hub.cursor.file

theorem Balanced.refl (s : Session) : s.Balanced s :=
  ⟨.refl _, rfl, rfl, rfl, rfl, rfl⟩

theorem Balanced.trans {s t u : Session} (h : s.Balanced t) (k : t.Balanced u) : s.Balanced u where
  scopes := h.scopes.trans k.scopes
  frames := k.frames.trans h.frames
  classScopes := k.classScopes.trans h.classScopes
  suppressions := k.suppressions.trans h.suppressions
  guard := k.guard.trans h.guard
  file := k.file.trans h.file

theorem Minor.balanced {s t : Session} (h : s.Minor t) : s.Balanced t :=
  ⟨h.scopes.toSteady.kept, h.frames, h.classScopes, h.suppressions, h.guard, congrArg Cursor.file h.cursor⟩

/-- A session whose scopes form a tree, and that remembers types for scopes that are there. -/
structure Placed (s : Session) : Prop where
  scopes : s.scopes.Formed
  memo : ∀ (key : String × Nat) (kept : Ty × Stamp), s.memo.entries[key]? = some kept →
    kept.2.scope.val < s.scopes.all.size

theorem Placed.of_scopes {s t : Session} (h : s.Placed) (ht : t.scopes.Formed)
    (hsize : s.scopes.all.size ≤ t.scopes.all.size) (hmemo : t.memo = s.memo) : t.Placed where
  scopes := ht
  memo key kept hkept := Nat.lt_of_lt_of_le (h.memo key kept (hmemo ▸ hkept)) hsize

theorem Placed.enter {s t : Session} (h : s.Placed) (name : String) (hscopes : t.scopes = (s.scopes.enter name).2)
    (hmemo : t.memo = s.memo) : t.Placed := by
  refine h.of_scopes (hscopes ▸ h.scopes.enter name) ?_ hmemo
  simp [hscopes, Scopes.enter, Scopes.alloc, Scopes.touch]

theorem Placed.exit {s t : Session} (h : s.Placed) (hscopes : t.scopes = s.scopes.exit)
    (hmemo : t.memo = s.memo) : t.Placed := by
  have hformed : t.scopes.Formed := hscopes ▸ h.scopes.exit
  have hsize : s.scopes.all.size ≤ t.scopes.all.size := hscopes ▸ s.scopes.size_exit.ge
  exact h.of_scopes hformed hsize hmemo

theorem Placed.exitBranch {s t : Session} (h : s.Placed) (a : Arena)
    (hscopes : t.scopes = s.scopes.exitBranch a) (hmemo : t.memo = s.memo) : t.Placed := by
  have hformed : t.scopes.Formed := hscopes ▸ h.scopes.exitBranch a
  have hsize : s.scopes.all.size ≤ t.scopes.all.size := hscopes ▸ (s.scopes.size_exitBranch a).ge
  exact h.of_scopes hformed hsize hmemo

theorem Minor.placed {s t : Session} (h : s.Minor t) (hs : s.Placed) : t.Placed where
  scopes := hs.scopes.of_steady h.scopes.toSteady
  memo key kept hkept := by
    rw [h.scopes.size]
    rcases h.memo key kept hkept with hold | hnew
    · exact hs.memo key kept hold
    · exact hnew ▸ hs.scopes.current

end Session

/-- What is to hold of the functions of a session, its guard and its file. -/
abbrev Terms :=
  Array FunctionInfo → Guard → String → Prop

def Session.Meets (s : Session) (I : Terms) : Prop :=
  I s.arena.functions s.guard s.hub.cursor.file

def Discipline.balance (I : Terms) (stop : Stop → Prop) : Discipline where
  inv s := s.Meets I
  le := Session.Balanced
  stop := stop
  le_refl := Session.Balanced.refl
  le_trans := Session.Balanced.trans

structure Arena.TakesIn (a : Arena) (w : World) (b : Arena) : Prop where
  size : a.functions.size ≤ b.functions.size
  old : ∀ id : FunctionId, id.val < a.functions.size → b.functionAt id = a.functionAt id
  new : ∀ id : FunctionId, id.val < b.functions.size → ¬id.val < a.functions.size →
    ∃ original R, (w.arena.functionAt original).Copied R (b.functionAt id)

theorem Arena.TakesIn.refl (a : Arena) (w : World) : a.TakesIn w a :=
  ⟨Nat.le_refl _, fun _ _ => rfl, fun _ h hn => absurd h hn⟩

theorem Arena.TakesIn.trans {w : World} {a b d : Arena} (h : a.TakesIn w b) (k : b.TakesIn w d) :
    a.TakesIn w d where
  size := Nat.le_trans h.size k.size
  old id hid := (k.old id (Nat.lt_of_lt_of_le hid h.size)).trans (h.old id hid)
  new id hid hn := by
    by_cases hb : id.val < b.functions.size
    · rw [k.old id hb]
      exact h.new id hb hn
    · exact k.new id hid hb

theorem Arena.TakesIn.forall_functions {w : World} {a b : Arena} {P : FunctionInfo → Prop}
    (htaken : a.TakesIn w b) (h : ∀ i, P (a.functions.getD i default))
    (hnew : ∀ {original R copy}, (w.arena.functionAt original).Copied R copy → P copy) (i : Nat) :
    P (b.functions.getD i default) := by
  by_cases hold : i < a.functions.size
  · have hsame : b.functions.getD i default = a.functions.getD i default := htaken.old ⟨i⟩ hold
    rw [hsame]
    exact h i
  by_cases hi : i < b.functions.size
  · obtain ⟨_, _, hcopied⟩ := htaken.new ⟨i⟩ hi hold
    exact hnew hcopied
  · rw [getD_of_not_lt hi, ← getD_of_not_lt (d := default) hold]
    exact h i

def SymbolTable.Exposes (table : SymbolTable) : Entry → Prop :=
  table.world.Spans fun root => ∃ entry ∈ table.bindings.entries, entry.2.type.Mentions root

namespace Adoption

variable {w : World} {P : Entry → Prop} {a b : Adoption}

theorem Extends.kept (h : Extends w P a b) : a.scopes.Kept b.scopes where
  current := h.current
  saved := h.saved
  size := h.size_le
  parents id hid := congrArg Scope.parent (h.keeps (f := .scope id) hid).2

theorem Extends.takesIn (h : Extends w P a b) (ha : a.Valid) : a.arena.TakesIn w b.arena where
  size := by
    by_contra hlt
    have hlast : a.target.Contains (.function ⟨b.arena.functions.size⟩) := Nat.lt_of_not_le hlt
    exact Nat.lt_irrefl _ (h.keeps hlast).1
  old id hid := (h.keeps (f := .function id) hid).2
  new id hid hn := by
    obtain ⟨e, he⟩ := h.onto (f := .function id) hid hn
    cases e with
    | function original =>
      refine ⟨original, b.Pairs, h.copies he fun hold => hn ?_⟩
      exact ha hold nofun
    | _ => cases he

theorem copying_exports (table : SymbolTable) (a : Adoption) :
    Copying table.world table.Exposes (table.world.Grounded table.Exposes)
      (table.bindings.mapM fun b => adopt (copier table.world) b.type) a
      fun R exports => List.Forall₂ (fun x y => x.1 = y.1 ∧ x.2.type.Copied R y.2)
        table.bindings.entries exports.entries := by
  have hmono : Copying.Monotone fun R (x : String × Binding) (y : String × Ty) =>
      x.1 = y.1 ∧ x.2.type.Copied R y.2 := fun R S hRS x y hxy => ⟨hxy.1, hxy.2.mono hRS⟩
  refine Copying.bind (Copying.mapM hmono ?_) fun entries b _ hb => .pure hb
  intro entry hentry b hb
  refine Copying.bind (copying_adopt (table.world.closed_spans _) fun e he => ?_)
    fun t b _ ht => .pure ⟨rfl, ht⟩
  exact table.world.spans_of_root ⟨entry, hentry, he⟩

theorem gives_of_adopts {table : SymbolTable} {α : Type} {x : AdoptM α} (h : Adopts table x)
    (ha : a.Valid) :
    Gives (table.world.Grounded table.Exposes) x a fun _ b =>
      a.scopes.Kept b.scopes ∧ a.arena.TakesIn table.world b.arena ∧ b.Valid ∧
        (table.world.scopes.Formed → a.scopes.Formed → b.scopes.Formed) := by
  induction h generalizing a with
  | pure r => exact ⟨.refl _, .refl _ _, ha, fun _ => id⟩
  | adopt hm =>
    have hmentions (e : Entry) (he : Ty.Mentions _ e) : table.Exposes e :=
      table.world.spans_of_root ⟨_, hm, he⟩
    refine Gives.imp (copying_adopt (table.world.closed_spans _) hmentions ha) fun t b hb => ?_
    exact ⟨hb.1.kept, hb.1.takesIn ha, hb.1.valid ha, fun hw hformed => hb.1.formed ha hformed hw.rooted⟩
  | set name t confidence =>
    have hsteady := a.scopes.steady_set name t confidence
    refine ⟨hsteady.kept, .refl _ _, ?_, fun _ hformed => hformed.of_steady hsteady⟩
    intro e f hp hne
    have hold := ha (e := e) (f := f) (by cases e <;> cases f <;> exact hp) hne
    cases f with
    | scope id => exact Nat.lt_of_lt_of_eq hold hsteady.size.symm
    | _ => exact hold
  | bind hx hf ihx ihf =>
    refine Gives.bind (ihx ha) fun r b ⟨hkept, htaken, hb, hformed⟩ => ?_
    refine Gives.imp (ihf r hb) fun q d ⟨hkept', htaken', hd, hformed'⟩ => ?_
    exact ⟨hkept.trans hkept', htaken.trans htaken', hd, fun hw h => hformed' hw (hformed hw h)⟩

end Adoption

namespace Discipline

/-- A discipline of balance. What is open stays open, and whether a session is under it depends on the
functions, the guard, the place of the check, the bodies that are being checked, and on whether the session
is placed. -/
structure Balancing (D : Discipline) : Prop where
  le : ∀ {s t}, D.le s t ↔ s.Balanced t
  inv : ∀ {s t : Session}, D.inv s → t.arena.functions = s.arena.functions → t.guard = s.guard →
    t.hub.cursor = s.hub.cursor → t.frames.map (·.function) = s.frames.map (·.function) →
    (s.Placed → t.Placed) → D.inv t

structure Fair (D : Discipline) (c : Context) (N : Sites) : Prop where
  fault : ∀ f, D.stop (.fault f)
  define : ∀ {s : Session} {f : FunctionInfo}, D.inv s → N.Defines s f →
    D.inv { s with arena := (s.arena.addFunction f).2 }
  takeIn : ∀ {table : SymbolTable} {s : Session} {a : Arena} {scopes : Scopes}, c.modules.Offers table →
    D.inv s → s.arena.TakesIn table.world a →
    (table.world.scopes.Formed → s.Placed → Session.Placed { s with arena := a, scopes }) →
    D.inv { s with arena := a, scopes }
  grounded : ∀ {table : SymbolTable}, c.modules.Offers table →
    table.world.Grounded table.Exposes ∨ D.stop .exhausted

namespace Balancing

open CheckM

variable {α : Type} {D : Discipline} (hD : D.Balancing) {c : Context} {N : Sites}
include hD

theorem moves_of_balanced {s t : Session} (h : s.Balanced t) (hs : D.inv s)
    (hfunctions : t.arena.functions = s.arena.functions) (hcursor : t.hub.cursor = s.hub.cursor)
    (hplaced : s.Placed → t.Placed) : D.Moves s t :=
  ⟨hD.inv hs hfunctions h.guard hcursor h.frames hplaced, hD.le.2 h⟩

theorem minor {s t : Session} (hs : D.inv s) (h : s.Minor t) : D.Moves s t :=
  hD.moves_of_balanced h.balanced hs h.functions h.cursor h.placed

theorem adopting {table : SymbolTable} {x : AdoptM α} (h : D.Fair c N)
    (hoffers : c.modules.Offers table) (hx : Adopts table x) :
    D.Holds c (Check.adopting x) (Check.adopting x) := by
  intro s hs
  have hgives := Adoption.gives_of_adopts hx (Adoption.valid_start s.arena s.scopes)
  refine .get_bind ?_
  unfold Adoption.Gives at hgives
  cases hrun : x.run { arena := s.arena, scopes := s.scopes } with
  | ok result =>
    rw [hrun] at hgives
    obtain ⟨hkept, htaken, -, hformed⟩ := hgives
    refine .of_ok rfl ⟨?_, hD.le.2 { Session.Balanced.refl s with scopes := hkept }⟩
    exact h.takeIn hoffers hs htaken fun hw hplaced =>
      hplaced.of_scopes (hformed hw hplaced.scopes) hkept.size rfl
  | error e =>
    rw [hrun] at hgives
    refine Holds.throw ?_ s hs
    rw [hgives.1]
    exact (h.grounded hoffers).resolve_left hgives.2

theorem inScope {name : String} {x y : CheckM α} (h : D.Holds c x y) :
    D.Holds c (CheckM.inScope name x) (CheckM.inScope name y) := by
  intro s hs
  have hx := h { s with scopes := (s.scopes.enter name).2 } (hD.inv hs rfl rfl rfl rfl (·.enter name rfl rfl))
  have hb := hD.le.1 hx.moves.2
  refine .after rfl (.ensuring hx ⟨hD.inv hx.moves.1 rfl rfl rfl rfl (·.exit rfl rfl), hD.le.2 ?_⟩)
  exact ⟨hb.scopes.exit, hb.frames, hb.classScopes, hb.suppressions, hb.guard, hb.file⟩

theorem inClassBody {name : String} {id : ClassId} {x y : ScopeId → CheckM α}
    (h : ∀ scope, D.Holds c (x scope) (y scope)) :
    D.Holds c (CheckM.inClassBody name id x) (CheckM.inClassBody name id y) := by
  intro s hs
  have hx := h ⟨s.scopes.all.size⟩
    { s with
      scopes := (s.scopes.enter name).2
      classScopes := (⟨s.scopes.all.size⟩, id) :: s.classScopes }
    (hD.inv hs rfl rfl rfl rfl (·.enter name rfl rfl))
  have hb := hD.le.1 hx.moves.2
  refine .after rfl (.after rfl (.ensuring hx
    ⟨hD.inv hx.moves.1 rfl rfl rfl rfl (·.exit rfl rfl), hD.le.2 ?_⟩))
  refine ⟨hb.scopes.exit, hb.frames, ?_, hb.suppressions, hb.guard, hb.file⟩
  exact congrArg List.tail hb.classScopes

theorem inBranch {name : String} {x y : CheckM Unit} (h : D.Holds c x y) :
    D.Holds c (CheckM.inBranch name x) (CheckM.inBranch name y) := by
  intro s hs
  have hx := h { s with scopes := (s.scopes.enter name).2 } (hD.inv hs rfl rfl rfl rfl (·.enter name rfl rfl))
  have hb := hD.le.1 hx.moves.2
  refine .after rfl (.ensuring hx ⟨hD.inv hx.moves.1 rfl rfl rfl rfl (·.exitBranch _ rfl rfl), hD.le.2 ?_⟩)
  exact ⟨hb.scopes.exitBranch _, hb.frames, hb.classScopes, hb.suppressions, hb.guard, hb.file⟩

theorem suppressing {kinds : List DiagnosticKind} {x y : CheckM Unit} (h : D.Holds c x y) :
    D.Holds c (CheckM.suppressing kinds x) (CheckM.suppressing kinds y) := by
  intro s hs
  have hx := h { s with hub := s.hub.pushSuppression kinds }
    (hD.inv hs rfl rfl rfl rfl fun hplaced => { hplaced with })
  have hb := hD.le.1 hx.moves.2
  refine .after rfl (.ensuring hx
    ⟨hD.inv hx.moves.1 rfl rfl rfl rfl fun hplaced => { hplaced with }, hD.le.2 ?_⟩)
  refine ⟨hb.scopes, hb.frames, hb.classScopes, ?_, hb.guard, hb.file⟩
  exact congrArg List.tail hb.suppressions

theorem basic (h : D.Fair c N) : D.Basic c N where
  fault := h.fault
  encloses hle := (hD.le.1 hle).scopes.encloses
  minor := hD.minor
  define {s _} hs hd := ⟨h.define hs hd, hD.le.2 { Session.Balanced.refl s with }⟩
  inScope := hD.inScope
  inClassBody := hD.inClassBody
  inBranch := hD.inBranch
  suppressing := hD.suppressing
  adopting := hD.adopting h

theorem declare {s : Session} (name : String) (hs : D.inv s) :
    D.Moves s { s with scopes := s.scopes.declareGlobal name } := by
  have hsteady := s.scopes.steady_declareGlobal name
  have hbalanced : s.Balanced { s with scopes := s.scopes.declareGlobal name } :=
    { Session.Balanced.refl s with scopes := hsteady.kept }
  refine hD.moves_of_balanced hbalanced hs rfl rfl fun hplaced => ?_
  exact hplaced.of_scopes (hplaced.scopes.of_steady hsteady) hsteady.size.ge rfl

theorem lawful (h : D.Fair c N)
    (hline : ∀ {s : Session} (line : Nat), D.inv s → D.inv { s with hub := s.hub.setLine line }) :
    D.Lawful c N :=
  { hD.basic h with
    declare := hD.declare
    goToLine := fun {s} line hs => ⟨hline line hs, hD.le.2 { Session.Balanced.refl s with }⟩ }

end Balancing

end Discipline

/-- Terms on which a check can define functions and import modules. -/
structure Terms.Fair (I : Terms) (stop : Stop → Prop) (c : Context) (N : Sites) : Prop where
  fault : ∀ f, stop (.fault f)
  define : ∀ {functions : Array FunctionInfo} {guard : Guard} {f : FunctionInfo},
    I functions guard f.file → f.calls = [] → N f.body f.line f.name →
    I (functions.push f) guard f.file
  takeIn : ∀ {table : SymbolTable} {a b : Arena} {guard : Guard} {file : String},
    c.modules.Offers table → I a.functions guard file → a.TakesIn table.world b →
    I b.functions guard file
  grounded : ∀ {table : SymbolTable}, c.modules.Offers table →
    table.world.Grounded table.Exposes ∨ stop .exhausted

namespace Discipline

variable {I : Terms} {stop : Stop → Prop} {c : Context} {N : Sites}

theorem balancing_balance (I : Terms) (stop : Stop → Prop) : (balance I stop).Balancing where
  le := .rfl
  inv {s t} hs hfunctions hguard hcursor _ _ := by
    change I t.arena.functions t.guard t.hub.cursor.file
    rw [hfunctions, hguard, hcursor]
    exact hs

theorem lawful_balance (h : I.Fair stop c N) : (balance I stop).Lawful c N := by
  refine (balancing_balance I stop).lawful
    ⟨h.fault, fun {s f} hs hd => ?_, fun hoffers hs htaken _ => h.takeIn hoffers hs htaken, h.grounded⟩
    fun _ hs => hs
  have hf : I (s.arena.functions.push f) s.guard f.file :=
    h.define (hd.file ▸ hs) hd.calls hd.site
  rw [hd.file] at hf
  exact hf

end Discipline

namespace Session

/-- The session in which the body of a function starts. -/
def entering (s : Session) (id : FunctionId) (f : FunctionInfo) (arguments : List (String × Ty)) :
    Session :=
  { s with
    hub := s.hub.moveTo ⟨f.file, f.line⟩
    scopes := (s.scopes.enterFunction f.name f.captured arguments).2
    frames := { function := id } :: s.frames }

def leaving (s t : Session) (f : FunctionInfo) : Session :=
  { t with
    frames := t.frames.tail
    scopes := t.scopes.exitFunction
    hub := t.hub.moveTo s.hub.cursor
    guard := t.guard.exit f.guardKey }

theorem Balanced.leaving {s t : Session} {id : FunctionId} {f : FunctionInfo} {guard : Guard}
    {arguments : List (String × Ty)} (hguard : s.guard.enter? f.guardKey = some guard)
    (hb : (entering { s with guard } id f arguments).Balanced t) : s.Balanced (s.leaving t f) where
  scopes := hb.scopes.exitFunction
  frames := (List.map_tail).trans (congrArg List.tail hb.frames)
  classScopes := hb.classScopes
  suppressions := hb.suppressions
  guard := by
    change t.guard.exit f.guardKey = s.guard
    rw [hb.guard]
    exact Guard.exit_enter hguard
  file := rfl

def returned (t : Session) (id : FunctionId) (f : FunctionInfo) : Option Ty → Ty
  | some value => value
  | none => f.returnedType (t.frames.head?.getD { function := id })

end Session

open CheckM in
theorem Check.outcome_runBody (inner : Inner) (id : FunctionId) (f : FunctionInfo)
    (arguments : List (String × Ty)) (c : Context) (s : Session) :
    (runBody inner id f arguments).outcome c s =
      match (evaluateBody inner f.body).outcome c (s.entering id f arguments) with
      | (.ok value, t) => (.ok (t.returned id f value), s.leaving t f)
      | (.error e, t) => (.error e, s.leaving t f) := by
  unfold runBody Session.entering
  simp only [modifyHub, modifyScopes, withScopes, outcome_bind, outcome_get, outcome_modify,
    outcome_modifyGet, outcome_attempt, andThen_ok]
  rcases (evaluateBody inner f.body).outcome c _ with ⟨_ | value, t⟩
  · rfl
  · cases value <;> rfl

namespace Discipline

variable {c : Context} {inner other : Check.Inner}

theorem recursiveResult {D : Discipline} (id : FunctionId) (f : FunctionInfo) :
    D.Holds c (Check.recursiveResult id f) (Check.recursiveResult id f) := by
  unfold Check.recursiveResult
  split
  · exact .pure _
  · refine Holds.get.bind fun s => ?_
    simp only
    split <;> exact .pure _

section Calls

variable {D E : Discipline} {s : Session} {id : FunctionId} {f : FunctionInfo}
  {arguments : List (String × Ty)}

theorem Ends.runBody {guard : Guard} (hs : E.inv (Session.entering { s with guard } id f arguments))
    (hbody : E.Holds c (Check.evaluateBody inner f.body) (Check.evaluateBody other f.body))
    (hstop : ∀ e, E.stop e → D.stop e)
    (hback : ∀ t, E.Moves (Session.entering { s with guard } id f arguments) t →
      D.Moves s (s.leaving t f)) :
    D.Ends c (Check.runBody inner id f arguments) (Check.runBody other id f arguments) s
      { s with guard } := by
  have hx := hbody _ hs
  have hinner := Check.outcome_runBody inner id f arguments c { s with guard }
  have hother := Check.outcome_runBody other id f arguments c { s with guard }
  rw [← hx.same] at hother
  have hstops := hx.stop
  have hmoves := hback _ hx.moves
  rcases hout : (Check.evaluateBody inner f.body).outcome c _ with ⟨result, t⟩
  rw [hout] at hinner hother hstops hmoves
  have hsame := hinner.trans hother.symm
  cases result with
  | error e =>
    exact ⟨hsame, by rwa [hinner], by rw [hinner]; rintro _ ⟨⟩; exact hstop e (hstops e rfl)⟩
  | ok value => exact ⟨hsame, by rwa [hinner], by rw [hinner]; rintro _ ⟨⟩⟩

theorem Ends.resultOver (hs : D.inv s)
    (hbody : ∀ guard, s.guard.enter? f.guardKey = some guard →
      D.Ends c (Check.runBody inner id f arguments) (Check.runBody other id f arguments) s
        { s with guard })
    (hremember : ∀ guard inferred t, s.guard.enter? f.guardKey = some guard →
      (Check.runBody inner id f arguments).outcome c { s with guard } = (.ok inferred, t) → D.inv t →
      D.Moves t { t with
        arena := t.arena.modifyFunction id
          (·.remember ⟨arguments, f.capturedView s.scopes⟩ (f.declared?.getD inferred)) }) :
    D.Runs c (Check.resultOver inner id f arguments) (Check.resultOver other id f arguments) s := by
  refine .after rfl ?_
  simp only
  split
  · exact Holds.pure _ s hs
  · refine .get_bind ?_
    split
    · exact recursiveResult id f s hs
    · rename_i guard hguard
      refine .after rfl (.bind (hbody guard hguard) fun inferred t ht hinv => ?_)
      exact Ends.of_ok rfl (hremember guard inferred t hguard ht hinv)

theorem Ends.callOver
    (hreport : ∀ findings, D.Holds c (CheckM.reportAll findings) (CheckM.reportAll findings))
    {receiver : Option Ty} {args : CallArgs} (hs : D.inv s)
    (h : ∀ (t : Session) arguments, t.arena = s.arena → t.scopes = s.scopes → D.inv t →
      D.Runs c (Check.resultOver inner id (s.arena.functionAt id) arguments)
        (Check.resultOver other id (s.arena.functionAt id) arguments) t) :
    D.Runs c (Check.callOver inner id receiver args) (Check.callOver other id receiver args) s := by
  refine .after rfl (.after rfl (.bind (hreport _ s hs) fun _ t ht hinv => ?_))
  cases ht
  split
  · exact Holds.pure _ _ hinv
  · exact h _ _ rfl rfl hinv

end Calls

namespace Balancing

variable {D E : Discipline} (hD : D.Balancing) {s : Session} {id : FunctionId} {f : FunctionInfo}
  {arguments : List (String × Ty)}
include hD

/-- The body of a function is run under a discipline of its own: with its key in the guard, in its file
and before the bodies that are being checked. -/
theorem ends_runBody {guard : Guard} (hE : E.Balancing)
    (hguard : s.guard.enter? f.guardKey = some guard)
    (hs : E.inv (Session.entering { s with guard } id f arguments))
    (hbody : E.Holds c (Check.evaluateBody inner f.body) (Check.evaluateBody other f.body))
    (hstop : ∀ e, E.stop e → D.stop e)
    (hback : ∀ t : Session, E.inv t → (Session.entering { s with guard } id f arguments).Balanced t →
      s.Balanced (s.leaving t f) → D.inv (s.leaving t f)) :
    D.Ends c (Check.runBody inner id f arguments) (Check.runBody other id f arguments) s
      { s with guard } := by
  refine .runBody hs hbody hstop fun t ht => ?_
  have hb := hE.le.1 ht.2
  exact ⟨hback t ht.1 hb (hb.leaving hguard), hD.le.2 (hb.leaving hguard)⟩

theorem resultOver (hs : D.inv s)
    (hbody : ∀ guard, s.guard.enter? f.guardKey = some guard →
      D.Ends c (Check.runBody inner id f arguments) (Check.runBody other id f arguments) s
        { s with guard })
    (hremember : ∀ guard inferred t, s.guard.enter? f.guardKey = some guard →
      (Check.runBody inner id f arguments).outcome c { s with guard } = (.ok inferred, t) → D.inv t →
      D.inv { t with
        arena := t.arena.modifyFunction id
          (·.remember ⟨arguments, f.capturedView s.scopes⟩ (f.declared?.getD inferred)) }) :
    D.Runs c (Check.resultOver inner id f arguments) (Check.resultOver other id f arguments) s := by
  refine .resultOver hs hbody fun guard inferred t hguard ht hinv => ?_
  exact ⟨hremember guard inferred t hguard ht hinv, hD.le.2 { Session.Balanced.refl t with }⟩

omit hD in
theorem callOver {N : Sites} (law : D.Basic c N) (id : FunctionId) (receiver : Option Ty)
    (args : CallArgs)
    (h : ∀ (s : Session) arguments, D.inv s →
      D.Runs c (Check.resultOver inner id (s.arena.functionAt id) arguments)
        (Check.resultOver other id (s.arena.functionAt id) arguments) s) :
    D.Holds c (Check.callOver inner id receiver args) (Check.callOver other id receiver args) := by
  intro s hs
  refine .callOver law.reportAll hs fun t arguments harena _ ht => ?_
  exact harena ▸ h t arguments ht

end Balancing

variable {I J : Terms} {stop : Stop → Prop}

theorem ends_runBody {s : Session} {guard : Guard} {id : FunctionId} {f : FunctionInfo}
    {arguments : List (String × Ty)} (hguard : s.guard.enter? f.guardKey = some guard)
    (hs : J s.arena.functions guard f.file)
    (hbody : (balance J stop).Holds c (Check.evaluateBody inner f.body)
      (Check.evaluateBody other f.body))
    (hback : ∀ functions, J functions guard f.file → I functions s.guard s.hub.cursor.file) :
    (balance I stop).Ends c (Check.runBody inner id f arguments)
      (Check.runBody other id f arguments) s { s with guard } := by
  refine (balancing_balance I stop).ends_runBody (balancing_balance J stop) hguard hs hbody
    (fun _ h => h) fun t ht hb hleft => ?_
  have hterms : J t.arena.functions t.guard t.hub.cursor.file := ht
  rw [hb.guard, hb.file] at hterms
  change I t.arena.functions (t.guard.exit f.guardKey) s.hub.cursor.file
  rw [show t.guard.exit f.guardKey = s.guard from hleft.guard]
  exact hback _ hterms

/-- Calls keep the balance on terms that the bodies of functions keep: a body is run on terms that
follow from those of the call and lead back to them, and its result may be remembered. -/
structure Callable (I : Terms) (stop : Stop → Prop) (c : Context) (inner other : Check.Inner) :
    Prop where
  body : ∀ {s : Session} {id : FunctionId} {f : FunctionInfo} {guard : Guard}, s.Meets I →
    s.arena.functionAt id = f → s.guard.enter? f.guardKey = some guard →
    ∃ J : Terms, J s.arena.functions guard f.file ∧
      (balance J stop).Holds c (Check.evaluateBody inner f.body) (Check.evaluateBody other f.body) ∧
      ∀ functions, J functions guard f.file → I functions s.guard s.hub.cursor.file
  remember : ∀ {s t : Session} {id : FunctionId} {f : FunctionInfo} {guard : Guard}
    {arguments : List (String × Ty)} {inferred : Ty}, s.Meets I → s.arena.functionAt id = f →
    s.guard.enter? f.guardKey = some guard →
    (Check.runBody inner id f arguments).outcome c { s with guard } = (.ok inferred, t) →
    t.Meets I → I (t.arena.functions.modify id.val
      (·.remember ⟨arguments, f.capturedView s.scopes⟩ (f.declared?.getD inferred)))
      t.guard t.hub.cursor.file

theorem Callable.callOver {N : Sites} (h : Callable I stop c inner other)
    (law : (balance I stop).Lawful c N) (id : FunctionId) (receiver : Option Ty)
    (args : CallArgs) :
    (balance I stop).Holds c (Check.callOver inner id receiver args)
      (Check.callOver other id receiver args) := by
  refine Balancing.callOver law.toBasic id receiver args fun s arguments hs => ?_
  refine (balancing_balance I stop).resultOver hs (fun guard hguard => ?_)
    fun guard inferred t hguard hrun ht => h.remember hs rfl hguard hrun ht
  obtain ⟨J, hJ, hbody, hback⟩ := h.body hs rfl hguard
  exact ends_runBody hguard hJ hbody hback

def Met (E : Expr → Prop) (B : List Stmt → Prop) : FunctionBody → Prop
  | .statements definition => B definition.body
  | .lambda value => E value

theorem Stage.evaluateBody {D : Discipline} {N : Sites} {E : Expr → Prop} {B : List Stmt → Prop}
    (L : D.Stage c N E B inner other) {body : FunctionBody} (h : Met E B body) :
    D.Holds c (Check.evaluateBody inner body) (Check.evaluateBody other body) := by
  cases body with
  | statements definition => exact (L.block h).bind fun _ => .pure _
  | lambda value => exact (L.expr h).map some

end Discipline

open Discipline Check

theorem level_of_loose {I : Terms} {c : Context}
    (fair : I.Fair (fun _ => True) c fun _ _ _ => True)
    (loose : ∀ {functions guard file} guard' file', I functions guard file → I functions guard' file')
    (remember : ∀ {functions guard file} (id : FunctionId) key result, I functions guard file →
      I (functions.modify id.val (·.remember key result)) guard file) (n : Nat) :
    (balance I fun _ => True).Level c (fun _ _ _ => True) (fun _ => True) (fun _ => True)
      (innerUpTo n) (innerUpTo n) := by
  have law := lawful_balance fair
  induction n with
  | zero =>
    exact
      { law with
        expr := fun _ => .throw trivial
        block := fun _ => .throw trivial
        call := fun _ _ _ => .throw trivial
        children := fun _ _ => trivial }
  | succ n ih =>
    have callable : Callable I (fun _ => True) c (innerUpTo n) (innerUpTo n) :=
      { body := fun {_ _ f _} hs _ _ => ⟨I, loose _ _ hs, ih.evaluateBody (by cases f.body <;> trivial),
          fun _ => loose _ _⟩
        remember := fun _ _ _ _ ht => remember _ _ _ ht }
    exact
      { law with
        expr := fun _ => ih.exprOver ⟨fun _ _ => trivial, fun _ _ _ => trivial⟩
        block := fun _ => ih.blockOver fun _ _ =>
          ⟨fun _ _ => trivial, fun _ _ => trivial, fun _ _ => trivial, fun _ _ => trivial,
            fun _ _ => trivial⟩
        call := callable.callOver law
        children := fun _ _ => trivial }

theorem level_innerUpTo (c : Context) (n : Nat) :
    (balance (fun _ _ _ => True) fun _ => True).Level c (fun _ _ _ => True) (fun _ => True)
      (fun _ => True) (innerUpTo n) (innerUpTo n) := by
  refine level_of_loose ?_ (fun _ _ _ => trivial) (fun _ _ _ _ => trivial) n
  exact ⟨fun _ => trivial, fun _ _ _ => trivial, fun _ _ _ => trivial, fun _ => .inr trivial⟩

/-- Whatever a statement, an expression or a call does, and however it ends, what was open before it
is open after it and nothing else is. -/
theorem check_restores_what_is_open (c : Context) (s : Session) (n : Nat) :
    (∀ stmt, s.Balanced ((checkStmt (innerUpTo n) stmt).outcome c s).2) ∧
      (∀ e, s.Balanced (((innerUpTo n).expr e).outcome c s).2) ∧
      ∀ id receiver args, s.Balanced (((innerUpTo n).call id receiver args).outcome c s).2 := by
  have L := level_innerUpTo c n
  refine ⟨fun stmt => ?_, fun e => (L.expr trivial s trivial).moves.2,
    fun id receiver args => (L.call id receiver args s trivial).moves.2⟩
  have checkable : Stage.Checkable (fun _ _ _ => True) (fun _ => True) (fun _ => True) stmt :=
    ⟨fun _ _ => trivial, fun _ _ => trivial, fun _ _ => trivial, fun _ _ => trivial,
      fun _ _ => trivial⟩
  exact (L.checkStmt checkable s trivial).moves.2

end Credence

import Credence.Proofs.Acceptance
import Credence.Proofs.Balance
import Credence.Proofs.Yield

namespace Credence

open Check CheckM

/-- A line to which a check of a statement goes: one of its own, or of a statement in a block of it or in the body of
its class. The body of a function is not part of that, since the cursor goes back to the place of a call. -/
inductive Stmt.Marks : Stmt → Nat → Prop
  | own {s : Stmt} {line : Nat} (h : line ∈ s.ownLines) : s.Marks line
  | block {s t : Stmt} {b : List Stmt} {line : Nat} (hb : b ∈ s.blocks) (ht : t ∈ b) (h : t.Marks line) :
    s.Marks line
  | body {s t : Stmt} {d : ClassDef Stmt} {line : Nat} (hd : s.form = .classDef d) (ht : t ∈ d.body)
    (h : t.Marks line) : s.Marks line

/-- Lines at which a check of a block may end that starts at one of some lines: those if there are no statements, else
the lines of the last one. -/
def closingLines (L : Nat → Prop) (body : List Stmt) : Nat → Prop :=
  (body.getLast?.map Stmt.Marks).getD L

theorem closingLines_cons (L : Nat → Prop) (s : Stmt) (rest : List Stmt) :
    closingLines L (s :: rest) = closingLines s.Marks rest := by
  rw [closingLines, closingLines, List.getLast?_cons]
  cases rest.getLast? <;> rfl

/-- A check stands in a file, at one of some lines. -/
structure Session.StandsAt (s : Session) (file : String) (L : Nat → Prop) : Prop where
  file : s.hub.cursor.file = file
  line : L s.hub.cursor.line

namespace Discipline

variable {α : Type} {c : Context} {file : String} {L : Nat → Prop} {n : Nat} {s : Session}

def lines (file : String) (L : Nat → Prop) : Discipline where
  inv s := s.StandsAt file L
  le := Session.Balanced
  stop _ := True
  le_refl := Session.Balanced.refl
  le_trans := Session.Balanced.trans

theorem balancing_lines (file : String) (L : Nat → Prop) : (lines file L).Balancing where
  le := .rfl
  inv hs _ _ hcursor _ _ := ⟨hcursor ▸ hs.file, hcursor ▸ hs.line⟩

theorem basic_lines (c : Context) (file : String) (L : Nat → Prop) :
    (lines file L).Basic c fun _ _ _ => True := by
  have hfair : (lines file L).Fair c fun _ _ _ => True :=
    { fault := fun _ => trivial
      define := fun hs _ => ⟨hs.file, hs.line⟩
      takeIn := fun _ hs _ _ => ⟨hs.file, hs.line⟩
      grounded := fun _ => .inr trivial }
  exact (balancing_lines file L).basic hfair

abbrev Within (L : Nat → Prop) (body : List Stmt) : Prop :=
  ∀ s ∈ body, ∀ line, s.Marks line → L line

abbrev LinesStage (c : Context) (file : String) (L : Nat → Prop) (inner : Inner) : Prop :=
  (lines file L).Stage c (fun _ _ _ => True) (fun _ => True) (Within L) inner inner

theorem LinesStage.holds_checkStmt {inner : Inner} {stmt : Stmt} (S : LinesStage c file L inner)
    (hstmt : ∀ line, stmt.Marks line → L line) :
    (lines file L).Holds c (checkStmt inner stmt) (checkStmt inner stmt) := by
  refine Stage.checkStmt S ⟨fun _ _ => trivial, fun _ _ => trivial, fun b hb t ht line h => ?_,
    fun d hd t ht line h => ?_, fun _ _ => trivial⟩ (fun line hline => .modify fun u hu => ?_)
    fun _ _ name _ => .modify fun u hu => (balancing_lines file L).declare name hu
  · exact hstmt line (.block hb ht h)
  · exact hstmt line (.body hd ht h)
  · exact ⟨⟨hu.file, hstmt line (.own hline)⟩, { Session.Balanced.refl u with }⟩

theorem linesStage_innerUpTo (c : Context) (file : String) (L : Nat → Prop) (n : Nat) :
    LinesStage c file L (innerUpTo n) := by
  induction n generalizing file L with
  | zero =>
    exact
      { basic_lines c file L with
        expr := fun _ => .throw trivial
        block := fun _ => .throw trivial
        call := fun _ _ _ => .throw trivial
        children := fun _ _ => trivial }
  | succ n ih =>
    refine
      { basic_lines c file L with
        expr := fun _ => (ih file L).exprOver ⟨fun _ _ => trivial, fun _ _ _ => trivial⟩
        block := fun hb => (ih file L).blockWith fun s hs => (ih file L).holds_checkStmt (hb s hs)
        call := fun id receiver args =>
          Balancing.callOver (basic_lines c file L) id receiver args fun s arguments hs => ?_
        children := fun _ _ => trivial }
    refine (balancing_lines file L).resultOver hs (fun guard hguard => ?_) fun _ _ _ _ _ ht => ⟨ht.file, ht.line⟩
    -- The body of a function may go to any line of its file, since the cursor is put back after it.
    let f := s.arena.functionAt id
    refine (balancing_lines file L).ends_runBody (balancing_lines f.file fun _ => True) hguard ⟨rfl, trivial⟩ ?_
      (fun _ h => h) fun _ _ _ _ => ⟨hs.file, hs.line⟩
    refine (ih f.file fun _ => True).evaluateBody ?_
    cases f.body with
    | statements definition => exact fun _ _ _ _ => trivial
    | lambda value => trivial

theorem runs_checkStmt (c : Context) (n : Nat) (stmt : Stmt) (s : Session) :
    (lines s.hub.cursor.file stmt.Marks).Runs c (checkStmt (innerUpTo n) stmt) (checkStmt (innerUpTo n) stmt) s := by
  -- To go to the line of a statement twice is to go there once.
  have hat := (linesStage_innerUpTo c s.hub.cursor.file stmt.Marks n).holds_checkStmt (fun _ h => h)
    { s with hub := s.hub.setLine stmt.line } ⟨rfl, .own List.mem_cons_self⟩
  have hreach : s.Balanced { s with hub := s.hub.setLine stmt.line } := { Session.Balanced.refl s with }
  exact ⟨rfl, ⟨hat.moves.1, hreach.trans hat.moves.2⟩, fun _ _ => trivial⟩

theorem yields_of_runs {x : CheckM α} (h : (lines file L).Runs c x x s) :
    (lines file fun _ => True).Yields c x x s fun t _ => t.StandsAt file L where
  same := rfl
  moves := ⟨⟨h.moves.1.file, trivial⟩, h.moves.2⟩
  stop _ _ := trivial
  result a t ht := by
    have hinv := h.moves.1
    rw [ht] at hinv
    exact hinv

theorem yields_blockOver (body : List Stmt) (hs : s.StandsAt file L) :
    (lines file fun _ => True).Yields c (blockOver (innerUpTo n) body) (blockOver (innerUpTo n) body) s
      fun t _ => t.StandsAt file (closingLines L body) := by
  have hbasic := basic_lines c file
  refine Yields.bind (Q := fun t _ => t.StandsAt file (closingLines L body)) ?_ fun _ t _ ht =>
    yields_of_runs ((hbasic _).flush t ht)
  induction body generalizing L s with
  | nil => exact .pure ⟨hs.file, trivial⟩ hs
  | cons stmt rest ih =>
    rw [List.forIn_cons, closingLines_cons]
    have hstmt := runs_checkStmt c n stmt s
    rw [hs.file] at hstmt
    refine Yields.bind (Q := fun t step => t.StandsAt file stmt.Marks ∧ step = .yield ⟨⟩) ?_
      fun step t _ ⟨ht, hstep⟩ => ?_
    · refine (yields_of_runs hstmt.attempt).bind fun result t _ ht => ?_
      have hfree : (lines file fun _ => True).inv t := ⟨ht.file, trivial⟩
      rcases result with (fault | _) | _
      · refine .get_bind ((yields_of_runs ((hbasic _).warn _ t ht)).bind fun _ u _ hu => ?_)
        exact .pure ⟨hu.file, trivial⟩ ⟨hu, rfl⟩
      · exact Yields.bind (Q := fun _ _ => False) (.throw hfree trivial) fun _ _ _ h => h.elim
      · exact .pure hfree ⟨ht, rfl⟩
    · subst hstep
      exact ih ht

end Discipline

structure Diagnostic.Tells (r : Diagnostic) (finding : Finding) (place : Cursor) : Prop where
  kind : r.kind = finding.kind
  identifier : r.identifier = finding.identifier
  message : r.message = finding.message
  file : r.file = place.file
  line : r.line = place.line

namespace Hub

/-- A report is made where the check stands, if it is made. -/
theorem pending_report (h : Hub) (finding : Finding) :
    ∃ added, (h.report finding).2.pending = h.pending ++ added ∧ ∀ r ∈ added, r.Tells finding h.cursor := by
  by_cases haccepts : h.Accepts h.cursor finding
  · rw [Hub.report, haccepts.reportAt]
    exact ⟨_, rfl, List.forall_mem_singleton.2 ⟨rfl, rfl, rfl, rfl, rfl⟩⟩
  · rw [Hub.report, reportAt_of_not_accepts haccepts]
    exact ⟨[], (List.append_nil _).symm, fun _ hr => absurd hr List.not_mem_nil⟩

/-- No report moves the cursor, so that all of them are made at the same place. -/
theorem pending_reportAll (h : Hub) (findings : List Finding) :
    ∃ added, (h.reportAll findings).pending = h.pending ++ added ∧
      ∀ r ∈ added, ∃ finding ∈ findings, r.Tells finding h.cursor := by
  induction findings generalizing h with
  | nil => exact ⟨[], (List.append_nil _).symm, fun _ hr => absurd hr List.not_mem_nil⟩
  | cons finding rest ih =>
    obtain ⟨first, hfirst, htells⟩ := h.pending_report finding
    obtain ⟨added, hadded, hrest⟩ := ih (h.report finding).2
    refine ⟨first ++ added, hadded.trans (by rw [hfirst, List.append_assoc]), fun r hr => ?_⟩
    rcases List.mem_append.1 hr with hr | hr
    · exact ⟨finding, List.mem_cons_self, htells r hr⟩
    · obtain ⟨other, hother, htold⟩ := hrest r hr
      have hplace : (h.report finding).2.cursor = h.cursor := h.cursor_reportAt h.cursor finding
      exact ⟨other, List.mem_cons_of_mem _ hother, hplace ▸ htold⟩

end Hub

theorem Scopes.findings_add {s : Scopes} {a : Arena} {name : String} {value : Ty} {confidence : Float}
    {finding : Finding} (h : finding ∈ (s.add a name value confidence).1) :
    finding.kind = .overrideTypeError ∧ finding.identifier = name := by
  simp only [add, rebound] at h
  split at h
  · exact absurd h List.not_mem_nil
  split at h
  · exact absurd h List.not_mem_nil
  · cases List.mem_singleton.1 h
    exact ⟨rfl, rfl⟩

namespace CheckM

theorem outcome_bindName (c : Context) (s : Session) (name : String) (value : Ty) (confidence : Float) :
    (bindName name value confidence).outcome c s =
      (.ok ⟨⟩, { s with
        scopes := (s.scopes.add s.arena name value confidence).2
        hub := s.hub.reportAll (s.scopes.add s.arena name value confidence).1 }) :=
  rfl

end CheckM

namespace Session

def enteringClass (s : Session) (name : String) (id : ClassId) : Session :=
  { s with
    scopes := (s.scopes.enter name).2
    classScopes := ((s.scopes.enter name).1, id) :: s.classScopes }

def leavingClass (s : Session) : Session :=
  { s with classScopes := s.classScopes.tail, scopes := s.scopes.exit }

end Session

theorem CheckM.outcome_inClassBody {α : Type} (name : String) (id : ClassId) (body : ScopeId → CheckM α)
    (c : Context) (s : Session) :
    (inClassBody name id body).outcome c s =
      (((body (s.scopes.enter name).1).outcome c (s.enteringClass name id)).1,
        ((body (s.scopes.enter name).1).outcome c (s.enteringClass name id)).2.leavingClass) := by
  simp only [inClassBody, withScopes, outcome_bind, outcome_modifyGet, outcome_modify, outcome_ensuring, andThen_ok]
  rcases ho : (body (s.scopes.enter name).1).outcome c (s.enteringClass name id) with ⟨result, t⟩
  rw [Session.enteringClass] at ho
  rw [ho]
  cases result <;> rfl

namespace Check

variable {inner : Inner} {d : ClassDef Stmt} {c : Context} {s t : Session} {id : ClassId}

theorem hub_of_defineClass (h : (defineClass inner d).outcome c s = (.ok id, t)) :
    ∃ u v, (makeClass inner d).outcome c s = (.ok id, u) ∧
      (inner.block d.body).outcome c (u.enteringClass d.name id) = (.ok ⟨⟩, v) ∧ t.hub = v.hub := by
  rw [defineClass, outcome_bind] at h
  rcases hmade : (makeClass inner d).outcome c s with ⟨stop | made, u⟩
  · rw [hmade, andThen_error] at h
    cases h
  rw [hmade, andThen_ok, outcome_bind, outcome_inClassBody, outcome_bind] at h
  rcases hbody : (inner.block d.body).outcome c (u.enteringClass d.name made) with ⟨stop | _, v⟩
  · rw [hbody, andThen_error, andThen_error] at h
    cases h
  · rw [hbody] at h
    cases h
    exact ⟨u, v, rfl, hbody, rfl⟩

open Discipline in
theorem standsAt_of_defineClass {file : String} {L : Nat → Prop} {n : Nat}
    (h : (defineClass (innerUpTo n) d).outcome c s = (.ok id, t)) (hs : s.StandsAt file L) :
    t.StandsAt file (closingLines L d.body) := by
  obtain ⟨u, v, hmade, hbody, hhub⟩ := hub_of_defineClass h
  have hu : (u.enteringClass d.name id).StandsAt file L := by
    have hmake : (lines file L).Holds c (makeClass (innerUpTo n) d) (makeClass (innerUpTo n) d) :=
      Stage.makeClass (linesStage_innerUpTo c file L n) (fun _ _ => trivial) (fun _ _ => trivial) fun _ _ => trivial
    have hinv := (hmake s hs).moves.1
    rw [hmade] at hinv
    exact ⟨hinv.file, hinv.line⟩
  cases n with
  | zero => cases hbody
  | succ n =>
    have hv := (yields_blockOver d.body hu).result _ _ hbody
    exact ⟨hhub ▸ hv.file, hhub ▸ hv.line⟩

theorem outcome_classDef {stmt : Stmt} (hclass : stmt.form = .classDef d)
    (h : (defineClass inner d).outcome c { s with hub := s.hub.setLine stmt.line } = (.ok id, t)) :
    (checkStmt inner stmt).outcome c s = (bindClass inner d id).outcome c t := by
  rw [checkStmt, hclass]
  simp only [modifyHub, outcome_bind, outcome_modify, andThen_ok, checkClassDef_eq, h]

/-- A class is bound to its name after the check of its body. If that gives the name another type, then this is
reported at the line where the check of the body has ended: at a line of the last statement there, or that of the
class if there are no statements. -/
theorem class_rebound_at_closing_line (c : Context) (n : Nat) {s t : Session} {stmt : Stmt} {d : ClassDef Stmt}
    {id : ClassId} (hclass : stmt.form = .classDef d)
    (hdefined : (defineClass (innerUpTo n) d).outcome c { s with hub := s.hub.setLine stmt.line } = (.ok id, t)) :
    (checkStmt (innerUpTo n) stmt).outcome c s = (bindClass (innerUpTo n) d id).outcome c t ∧
      ∃ added, ((bindName d.name (.classObj id) 1.0).outcome c t).2.hub.pending = t.hub.pending ++ added ∧
        ∀ r ∈ added, r.kind = .overrideTypeError ∧ r.identifier = d.name ∧ r.file = s.hub.cursor.file ∧
          r.line = t.hub.cursor.line ∧ closingLines (· = stmt.line) d.body r.line := by
  have ht : t.StandsAt s.hub.cursor.file (closingLines (· = stmt.line) d.body) :=
    standsAt_of_defineClass hdefined ⟨rfl, rfl⟩
  rw [outcome_bindName]
  obtain ⟨added, hadded, htells⟩ := t.hub.pending_reportAll (t.scopes.add t.arena d.name (.classObj id) 1.0).1
  refine ⟨outcome_classDef hclass hdefined, added, hadded, fun r hr => ?_⟩
  obtain ⟨finding, hfinding, htold⟩ := htells r hr
  obtain ⟨hkind, hname⟩ := Scopes.findings_add hfinding
  exact ⟨htold.kind.trans hkind, htold.identifier.trans hname, htold.file.trans ht.file, htold.line,
    htold.line ▸ ht.line⟩

def spanAt (line : Nat) : Span :=
  ⟨⟨0, line, 0, "main.py"⟩, ⟨0, line, 0, "main.py"⟩⟩

/-- A class with a single statement, on the line after that of the class. -/
def twoLineClass : ClassDef Stmt where
  name := "C"
  bases := []
  keywords := []
  body := [⟨1, .pass, spanAt 2⟩]
  decorators := []
  span := spanAt 1

def twoLines : Stmt :=
  ⟨0, .classDef twoLineClass, twoLineClass.span⟩

def plainContext : Context where
  treeFile := "main.py"

def boundSession : Session where
  arena := {}
  scopes := ({} : Scopes).set "C" .int 1.0
  hub := { cursor := { file := "main.py" } }

def definedSession : Session :=
  ((defineClass (innerUpTo 2) twoLineClass).outcome plainContext
    { boundSession with hub := boundSession.hub.setLine twoLines.line }).2

theorem outcome_twoLineClass :
    (defineClass (innerUpTo 2) twoLineClass).outcome plainContext
      { boundSession with hub := boundSession.hub.setLine twoLines.line } = (.ok ⟨0⟩, definedSession) :=
  rfl

theorem class_rebound_at_closing_line_twoLines :
    (defineClass (innerUpTo 2) twoLineClass).outcome plainContext
        { boundSession with hub := boundSession.hub.setLine twoLines.line } = (.ok ⟨0⟩, definedSession) ∧
      ∃ added, ((bindName "C" (.classObj ⟨0⟩) 1.0).outcome plainContext definedSession).2.hub.pending =
          definedSession.hub.pending ++ added ∧
        ∀ r ∈ added, r.kind = .overrideTypeError ∧ r.identifier = "C" ∧ r.file = "main.py" ∧
          r.line = definedSession.hub.cursor.line ∧ closingLines (· = 1) [⟨1, .pass, spanAt 2⟩] r.line := by
  obtain ⟨-, hreports⟩ := class_rebound_at_closing_line plainContext 2 rfl outcome_twoLineClass
  exact ⟨outcome_twoLineClass, hreports⟩

theorem exists_finding_add :
    ∃ finding, (definedSession.scopes.add definedSession.arena "C" (.classObj ⟨0⟩) 1.0).1 = [finding] := by
  have hold : definedSession.scopes.visible? (definedSession.scopes.target "C") "C" = some (.int, true) := rfl
  have hfits (a : Arena) : a.isSubtype (.classObj ⟨0⟩) .int = false := by
    simp [Arena.isSubtype, Ty.isUnknown, Ty.isFunctionLike, Ty.int]
  simp only [Scopes.add, Scopes.rebound, hold, hfits]
  exact ⟨_, rfl⟩

/-- What the class on the first line gives to report stands on the second one. -/
theorem rebinding_below_class :
    twoLines.line = 1 ∧
      ((checkStmt (innerUpTo 2) twoLines).outcome plainContext boundSession).2.hub.pending.map
        (fun r => (r.kind, r.identifier, r.line)) = [(.overrideTypeError, "C", 2)] := by
  refine ⟨rfl, ?_⟩
  obtain ⟨finding, hfinding⟩ := exists_finding_add
  obtain ⟨hkind, hidentifier⟩ := Scopes.findings_add (hfinding ▸ List.mem_singleton_self finding)
  have haccepts : definedSession.hub.Accepts definedSession.hub.cursor finding :=
    ⟨by decide, hkind ▸ rfl, List.not_mem_nil⟩
  have hhub : definedSession.hub.reportAll [finding] =
      definedSession.hub.accepting definedSession.hub.cursor finding :=
    congrArg Prod.snd haccepts.reportAt
  have hrun : (checkStmt (innerUpTo 2) twoLines).outcome plainContext boundSession =
      (bindClass (innerUpTo 2) twoLineClass ⟨0⟩).outcome plainContext definedSession :=
    outcome_classDef rfl outcome_twoLineClass
  have hname : twoLineClass.name = "C" := rfl
  rw [hrun, bindClass, outcome_bind, outcome_bindName, hname, hfinding, hhub]
  -- The class has no methods, so that nothing else is reported.
  change [(finding.kind, finding.identifier, 2)] = _
  rw [hkind, hidentifier]

end Check

end Credence

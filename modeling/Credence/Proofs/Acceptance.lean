import Credence.Report.Hub
import Mathlib.Data.List.Nodup

namespace Credence

section Split

variable {α : Type} {x : α} {a a' b b' : List α}

theorem eq_of_split_first (h : x ∉ a) (h' : x ∉ a') (heq : a ++ x :: b = a' ++ x :: b') : a = a' ∧ b = b' := by
  induction a generalizing a' with
  | nil =>
    cases a' with
    | nil => exact ⟨rfl, (List.cons.inj heq).2⟩
    | cons y a' => exact absurd (List.mem_cons.2 (.inl (List.cons.inj heq).1)) h'
  | cons y a ih =>
    cases a' with
    | nil => exact absurd (List.mem_cons.2 (.inl (List.cons.inj heq).1.symm)) h
    | cons z a' =>
      obtain ⟨rfl, hrest⟩ := List.cons.inj heq
      obtain ⟨rfl, rfl⟩ := ih (fun hx => h (List.mem_cons_of_mem _ hx)) (fun hx => h' (List.mem_cons_of_mem _ hx))
        hrest
      exact ⟨rfl, rfl⟩

theorem eq_of_split_last (h : x ∉ b) (h' : x ∉ b') (heq : a ++ x :: b = a' ++ x :: b') : a = a' ∧ b = b' := by
  have hreverse := congrArg List.reverse heq
  simp only [List.reverse_append, List.reverse_cons, List.append_assoc, List.singleton_append] at hreverse
  obtain ⟨hb, ha⟩ := eq_of_split_first (by simpa using h) (by simpa using h') hreverse
  exact ⟨List.reverse_injective ha, List.reverse_injective hb⟩

end Split

namespace DiagnosticKind

theorem name_inj {k k' : DiagnosticKind} (h : k.name = k'.name) : k = k' := by
  have hback := ofName?_name k
  rw [h, ofName?_name k'] at hback
  exact (Option.some.inj hback).symm

theorem bar_not_mem_name (k : DiagnosticKind) : '|' ∉ k.name.toList := by
  cases k <;> decide

end DiagnosticKind

theorem bar_not_mem_toString (n : Nat) : '|' ∉ (toString n).toList := by
  rw [Nat.toString_eq_repr, Nat.toList_repr]
  intro h
  have hdigit := Nat.isDigit_of_mem_toDigits (by decide) (by decide) h
  exact absurd hdigit (by decide)

theorem Seen.toList_key (kind file : String) (line : Nat) (identifier : String) :
    (key kind file line identifier).toList =
      (kind.toList ++ '|' :: (file.toList ++ '|' :: (toString line).toList)) ++ '|' :: identifier.toList := by
  have hbar : "|".toList = ['|'] := rfl
  simp only [key, String.toList_append, hbar, List.append_assoc, List.cons_append, List.nil_append]

/-- Keys tell reports apart, whatever the names of files, if identifiers have no bars. -/
theorem Seen.key_inj {k k' : DiagnosticKind} {file file' : String} {line line' : Nat}
    {identifier identifier' : String} (h : '|' ∉ identifier.toList) (h' : '|' ∉ identifier'.toList)
    (heq : key k.name file line identifier = key k'.name file' line' identifier') :
    k = k' ∧ file = file' ∧ line = line' ∧ identifier = identifier' := by
  have hlist := congrArg String.toList heq
  rw [toList_key, toList_key] at hlist
  obtain ⟨hrest, hidentifier⟩ := eq_of_split_last h h' hlist
  obtain ⟨hkind, hplace⟩ := eq_of_split_first k.bar_not_mem_name k'.bar_not_mem_name hrest
  obtain ⟨hfile, hline⟩ := eq_of_split_last (bar_not_mem_toString line) (bar_not_mem_toString line') hplace
  refine ⟨DiagnosticKind.name_inj (String.toList_injective hkind), String.toList_injective hfile, ?_,
    String.toList_injective hidentifier⟩
  rw [Nat.toString_eq_repr, Nat.toString_eq_repr, Nat.toList_repr, Nat.toList_repr] at hline
  have hback := congrArg (Nat.ofDigitChars 10 · 0) hline
  simpa using hback

namespace Hub

def accepting (h : Hub) (place : Cursor) (finding : Finding) : Hub :=
  let diagnostic : Diagnostic :=
    { kind := finding.kind, file := place.file, line := place.line, identifier := finding.identifier,
      confidence := clampUnit finding.confidence, message := finding.message }
  { h with
    seen := ⟨Seen.key finding.kind.name place.file place.line finding.identifier :: h.seen.keys⟩
    pending := h.pending ++ [diagnostic]
    total := h.total + 1 }

/-- A report that is neither dropped nor repeated. -/
structure Accepts (h : Hub) (place : Cursor) (finding : Finding) : Prop where
  file : h.filter.ignoresFile place.file = false
  kind : h.isSuppressed finding.kind = false
  isNew : Seen.key finding.kind.name place.file place.line finding.identifier ∉ h.seen.keys

variable {h : Hub} {place : Cursor} {finding : Finding}

theorem Accepts.reportAt (haccepts : h.Accepts place finding) :
    h.reportAt place finding = (true, h.accepting place finding) := by
  simp [Hub.reportAt, Seen.add, accepting, haccepts.file, haccepts.kind, haccepts.isNew]

/-- A report that is dropped or repeated changes nothing, so that it uses up no key. -/
theorem reportAt_of_not_accepts (hnot : ¬h.Accepts place finding) : h.reportAt place finding = (false, h) := by
  have hseen : h.filter.ignoresFile place.file = false → h.isSuppressed finding.kind = false →
      Seen.key finding.kind.name place.file place.line finding.identifier ∈ h.seen.keys :=
    fun hfile hkind => Classical.byContradiction fun hnew => hnot ⟨hfile, hkind, hnew⟩
  unfold Hub.reportAt
  cases hfile : h.filter.ignoresFile place.file <;> cases hkind : h.isSuppressed finding.kind <;>
    simp [Seen.add, hseen, hfile, hkind]

theorem isSuppressed_eq_false_iff {kind : DiagnosticKind} :
    h.isSuppressed kind = false ↔
      ¬(h.filter.suppressAttributeErrors ∧ kind.isAttribute) ∧ ∀ frame ∈ h.suppressions, kind ∉ frame := by
  simp only [isSuppressed, Bool.or_eq_false_iff, Bool.and_eq_false_iff, List.any_eq_false, List.contains_iff_mem]
  refine and_congr_left fun _ => ?_
  cases kind.isAttribute <;> simp

/-- What is done with a hub. -/
inductive Operation where
  | report (finding : Finding)
  | reportAt (place : Cursor) (finding : Finding)
  | pushSuppression (kinds : List DiagnosticKind)
  | popSuppression
  | setLine (line : Nat)
  | moveTo (cursor : Cursor)
  | drain

def Operation.finding? : Operation → Option Finding
  | report finding | reportAt _ finding => some finding
  | _ => none

/-- A report that was made, with the suppressions that were pushed and not popped before it. -/
structure Attempt where
  place : Cursor
  finding : Finding
  frames : List (List DiagnosticKind)

namespace Attempt

def key (a : Attempt) : DiagnosticKind × String × Nat × String :=
  (a.finding.kind, a.place.file, a.place.line, a.finding.identifier)

def text (a : Attempt) : String :=
  Seen.key a.finding.kind.name a.place.file a.place.line a.finding.identifier

theorem text_eq_iff {a b : Attempt} (ha : '|' ∉ a.finding.identifier.toList)
    (hb : '|' ∉ b.finding.identifier.toList) : a.text = b.text ↔ a.key = b.key := by
  constructor
  · intro h
    obtain ⟨hkind, hfile, hline, hidentifier⟩ := Seen.key_inj ha hb h
    rw [key, key, hkind, hfile, hline, hidentifier]
  · intro h
    simp only [key, Prod.mk.injEq] at h
    obtain ⟨hkind, hfile, hline, hidentifier⟩ := h
    rw [text, text, hkind, hfile, hline, hidentifier]

def diagnostic (a : Attempt) : Diagnostic where
  kind := a.finding.kind
  file := a.place.file
  line := a.place.line
  identifier := a.finding.identifier
  confidence := clampUnit a.finding.confidence
  message := a.finding.message

/-- A report that is to be accepted after others were. -/
structure Acceptable (filter : Filter) (earlier : List Attempt) (a : Attempt) : Prop where
  file : filter.ignoresFile a.place.file = false
  globally : ¬(filter.suppressAttributeErrors ∧ a.finding.kind.isAttribute)
  frames : ∀ frame ∈ a.frames, a.finding.kind ∉ frame
  isNew : ∀ b ∈ earlier, b.key ≠ a.key

end Attempt

/-- A hub in use, with what the one who uses it knows: where it stands, what it has suppressed, the reports with
their answers, and what was handed over. -/
structure Log where
  hub : Hub
  cursor : Cursor
  frames : List (List DiagnosticKind) := []
  attempts : List (Attempt × Bool) := []
  drained : List Diagnostic := []

def accepted (attempts : List (Attempt × Bool)) : List Attempt :=
  (attempts.filter (·.2)).map (·.1)

namespace Log

def start (file : String) (filter : Filter) : Log where
  hub := { cursor := { file }, filter }
  cursor := { file }

def answered (l : Log) (place : Cursor) (finding : Finding) (outcome : Bool × Hub) : Log :=
  { l with hub := outcome.2, attempts := l.attempts ++ [(⟨place, finding, l.frames⟩, outcome.1)] }

def step (l : Log) : Operation → Log
  | .report finding => l.answered l.cursor finding (l.hub.report finding)
  | .reportAt place finding => l.answered place finding (l.hub.reportAt place finding)
  | .pushSuppression kinds => { l with hub := l.hub.pushSuppression kinds, frames := kinds :: l.frames }
  | .popSuppression => { l with hub := l.hub.popSuppression, frames := l.frames.tail }
  | .setLine line => { l with hub := l.hub.setLine line, cursor := { l.cursor with line } }
  | .moveTo cursor => { l with hub := l.hub.moveTo cursor, cursor }
  | .drain => { l with hub := l.hub.drain.2, drained := l.drained ++ l.hub.drain.1 }

def run (l : Log) (operations : List Operation) : Log :=
  operations.foldl step l

/-- Each report was answered as the reports before it and the suppressions of its time demand. -/
def Answers (filter : Filter) (attempts : List (Attempt × Bool)) : Prop :=
  ∀ before a answer after, attempts = before ++ (a, answer) :: after →
    (answer = true ↔ a.Acceptable filter (accepted before))

/-- The hub agrees with what is known to the one who uses it. -/
structure Faithful (filter : Filter) (l : Log) : Prop where
  settings : l.hub.filter = filter
  cursor : l.hub.cursor = l.cursor
  frames : l.hub.suppressions = l.frames
  plain : ∀ a ∈ accepted l.attempts, '|' ∉ a.finding.identifier.toList
  keys : l.hub.seen.keys = ((accepted l.attempts).map Attempt.text).reverse
  answers : Answers filter l.attempts
  distinct : ((accepted l.attempts).map Attempt.key).Nodup
  output : l.drained ++ l.hub.pending = (accepted l.attempts).map Attempt.diagnostic
  total : l.hub.total = (accepted l.attempts).length

theorem Answers.snoc {filter : Filter} {attempts : List (Attempt × Bool)} {a : Attempt} {answer : Bool}
    (h : Answers filter attempts) (ha : answer = true ↔ a.Acceptable filter (accepted attempts)) :
    Answers filter (attempts ++ [(a, answer)]) := by
  intro before b other after heq
  rcases List.eq_nil_or_concat after with rfl | ⟨middle, last, rfl⟩
  · obtain ⟨rfl, hlast⟩ := List.append_inj' heq rfl
    cases hlast
    exact ha
  · rw [List.concat_eq_append, ← List.cons_append, ← List.append_assoc] at heq
    obtain ⟨rfl, -⟩ := List.append_inj' heq rfl
    exact h before b other middle rfl

theorem faithful_start (file : String) (filter : Filter) : (start file filter).Faithful filter where
  settings := rfl
  cursor := rfl
  frames := rfl
  plain := nofun
  keys := rfl
  answers before a answer after heq := by simp [start] at heq
  distinct := List.nodup_nil
  output := rfl
  total := rfl

namespace Faithful

variable {filter : Filter} {l : Log}

theorem accepts_iff (h : l.Faithful filter) {place : Cursor} {finding : Finding}
    (hplain : '|' ∉ finding.identifier.toList) :
    l.hub.Accepts place finding ↔
      Attempt.Acceptable filter (accepted l.attempts) ⟨place, finding, l.frames⟩ := by
  have hnew : Seen.key finding.kind.name place.file place.line finding.identifier ∉ l.hub.seen.keys ↔
      ∀ b ∈ accepted l.attempts, b.key ≠ Attempt.key ⟨place, finding, l.frames⟩ := by
    rw [h.keys, List.mem_reverse, List.mem_map, not_exists]
    refine forall_congr' fun b => ?_
    rw [not_and]
    refine forall_congr' fun hb => not_congr ?_
    exact Attempt.text_eq_iff (b := ⟨place, finding, l.frames⟩) (h.plain b hb) hplain
  constructor
  · rintro ⟨hfile, hkind, hkey⟩
    obtain ⟨hglobally, hframes⟩ := isSuppressed_eq_false_iff.1 hkind
    rw [h.settings] at hfile hglobally
    rw [h.frames] at hframes
    exact ⟨hfile, hglobally, hframes, hnew.1 hkey⟩
  · rintro ⟨hfile, hglobally, hframes, hkey⟩
    rw [← h.settings] at hfile hglobally
    rw [← h.frames] at hframes
    exact ⟨hfile, isSuppressed_eq_false_iff.2 ⟨hglobally, hframes⟩, hnew.2 hkey⟩

theorem answered (h : l.Faithful filter) (place : Cursor) {finding : Finding}
    (hplain : '|' ∉ finding.identifier.toList) :
    (l.answered place finding (l.hub.reportAt place finding)).Faithful filter := by
  have hanswers (answer : Bool) (hanswer : answer = true ↔ l.hub.Accepts place finding) :
      Answers filter (l.attempts ++ [(⟨place, finding, l.frames⟩, answer)]) :=
    h.answers.snoc (hanswer.trans (h.accepts_iff hplain))
  by_cases haccepts : l.hub.Accepts place finding
  · obtain ⟨-, -, -, hnew⟩ := (h.accepts_iff hplain).1 haccepts
    have haccepted : accepted (l.attempts ++ [(⟨place, finding, l.frames⟩, true)]) =
        accepted l.attempts ++ [⟨place, finding, l.frames⟩] := by
      simp [accepted]
    rw [haccepts.reportAt]
    refine ⟨h.settings, h.cursor, h.frames, ?_, ?_, hanswers true (by simpa), ?_, ?_, ?_⟩ <;>
      rw [Log.answered, haccepted]
    · exact List.forall_mem_append.2 ⟨h.plain, by simpa using hplain⟩
    · rw [List.map_append, List.reverse_append, ← h.keys]
      rfl
    · rw [List.map_append]
      refine List.nodup_append.2 ⟨h.distinct, List.nodup_singleton _, ?_⟩
      simpa using hnew
    · rw [List.map_append, ← h.output, List.append_assoc]
      rfl
    · rw [List.length_append, ← h.total]
      rfl
  · have haccepted : accepted (l.attempts ++ [(⟨place, finding, l.frames⟩, false)]) = accepted l.attempts := by
      simp [accepted]
    rw [reportAt_of_not_accepts haccepts]
    refine ⟨h.settings, h.cursor, h.frames, ?_, ?_, hanswers false (by simpa), ?_, ?_, ?_⟩ <;>
      rw [Log.answered, haccepted]
    · exact h.plain
    · exact h.keys
    · exact h.distinct
    · exact h.output
    · exact h.total

theorem step (h : l.Faithful filter) {operation : Operation}
    (hplain : ∀ finding ∈ operation.finding?, '|' ∉ finding.identifier.toList) :
    (l.step operation).Faithful filter := by
  cases operation with
  | report finding =>
    have hreport : l.hub.report finding = l.hub.reportAt l.cursor finding := by rw [← h.cursor]; rfl
    rw [Log.step, hreport]
    exact h.answered l.cursor (hplain finding rfl)
  | reportAt place finding => exact h.answered place (hplain finding rfl)
  | pushSuppression kinds => exact { h with frames := congrArg (kinds :: ·) h.frames }
  | popSuppression => exact { h with frames := congrArg List.tail h.frames }
  | setLine line => exact { h with cursor := congrArg (fun c : Cursor => { c with line }) h.cursor }
  | moveTo cursor => exact { h with cursor := rfl }
  | drain =>
    refine { h with output := ?_ }
    exact (List.append_nil _).trans h.output

theorem run {operations : List Operation} (h : l.Faithful filter)
    (hplain : ∀ operation ∈ operations, ∀ finding ∈ operation.finding?, '|' ∉ finding.identifier.toList) :
    (l.run operations).Faithful filter := by
  induction operations generalizing l with
  | nil => exact h
  | cons operation rest ih =>
    obtain ⟨hfirst, hrest⟩ := List.forall_mem_cons.1 hplain
    exact ih (h.step hfirst) hrest

end Faithful

theorem findings_run (l : Log) (operations : List Operation) :
    (l.run operations).attempts.map (·.1.finding) =
      l.attempts.map (·.1.finding) ++ operations.filterMap Operation.finding? := by
  induction operations generalizing l with
  | nil => simp [run]
  | cons operation rest ih =>
    rw [run, List.foldl_cons, ← run, ih]
    cases operation <;> simp [step, answered, Operation.finding?, List.filterMap_cons]

end Log

/-- Along every use of a new hub, each report has an answer, and it is accepted if nothing drops it at that moment
and no accepted report before it has its key. What was handed over and what is pending are the accepted reports in
order, no two with one key, and they are counted. -/
theorem run_accepts (file : String) (filter : Filter) (operations : List Operation)
    (hplain : ∀ operation ∈ operations, ∀ finding ∈ operation.finding?, '|' ∉ finding.identifier.toList) :
    let l := (Log.start file filter).run operations
    l.attempts.map (·.1.finding) = operations.filterMap Operation.finding? ∧
      Log.Answers filter l.attempts ∧
      l.drained ++ l.hub.pending = (accepted l.attempts).map Attempt.diagnostic ∧
      ((accepted l.attempts).map Attempt.key).Nodup ∧
      l.hub.total = (accepted l.attempts).length := by
  have hfaithful := (Log.faithful_start file filter).run hplain
  have hfindings := (Log.start file filter).findings_run operations
  exact ⟨hfindings, hfaithful.answers, hfaithful.output, hfaithful.distinct, hfaithful.total⟩

/-- A report that is made while its kind is suppressed, and two times after that. -/
def suppressedFirst : List Operation :=
  let finding : Finding := ⟨.attributeError, "x", 1.0, "no x"⟩
  [.pushSuppression [.attributeError], .report finding, .popSuppression, .report finding, .report finding]

theorem run_accepts_suppressedFirst :
    (∀ operation ∈ suppressedFirst, ∀ finding ∈ operation.finding?, '|' ∉ finding.identifier.toList) ∧
      let l := (Log.start "a|b.py" {}).run suppressedFirst
      l.attempts.map (·.2) = [false, true, false] ∧ l.hub.total = (accepted l.attempts).length := by
  have hplain : ∀ operation ∈ suppressedFirst, ∀ finding ∈ operation.finding?,
      '|' ∉ finding.identifier.toList := by
    simp [suppressedFirst, Operation.finding?]
  obtain ⟨-, -, -, -, htotal⟩ := run_accepts "a|b.py" {} suppressedFirst hplain
  exact ⟨hplain, by decide, htotal⟩

end Hub

end Credence

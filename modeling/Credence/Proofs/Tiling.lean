import Credence.Proofs.Layout
import Mathlib.Data.List.DropRight

namespace Credence

open Text

/-- The place right after a text: as many bytes on as the text has, one line further than it has line
ends, and as far in that line as the text goes on after the last of them. -/
def Position.after (file : String) (before : List Char) : Position :=
  ⟨byteLength before, before.count '\n' + 1, byteLength (before.rtakeWhile (· ≠ '\n')), file⟩

namespace Token

/-- Kinds of token that show their text as it is written. -/
def Kind.isVerbatim : Kind → Bool
  | newline | indent | dedent | eof | string | bytes | formatString => false
  | _ => true

/-- A token stands for a piece of a text, right after the text before it. -/
structure Spans (file : String) (before piece : List Char) (t : Token) : Prop where
  span : t.span = ⟨.after file before, (Position.after file before).shift (byteLength piece)⟩
  value : t.kind.isVerbatim = true → t.value = String.ofList piece

theorem Kind.isVerbatim_literal (tag : Nat) (triple : Bool) (text : List Char) :
    (Scan.literal tag triple text).1.isVerbatim = false := by
  unfold Scan.literal
  simp only
  split
  · rfl
  · split <;> rfl

namespace Place

theorem line_advance (text : List Char) : (({} : Place).advance text).line = text.count '\n' + 1 := by
  induction text using List.reverseRecOn with
  | nil => rfl
  | append_singleton text c ih =>
    rw [advance_append, List.count_append, List.count_singleton]
    change (Place.step _ c).line = _
    unfold step
    by_cases hc : c = '\n' <;> simp [hc, ih]

theorem lineStart_advance (text : List Char) :
    (({} : Place).advance text).lineStart + byteLength (text.rtakeWhile (· ≠ '\n')) =
      byteLength text := by
  induction text using List.reverseRecOn with
  | nil => rfl
  | append_singleton text c ih =>
    rw [advance_append, List.rtakeWhile_concat, byteLength_append]
    change (Place.step _ c).lineStart + _ = _
    unfold step
    by_cases hc : c = '\n'
    · simp [hc]
    · simp [hc, ← ih, Nat.add_assoc]

theorem position_advance (file : String) (text : List Char) :
    (({} : Place).advance text).position file = .after file text := by
  have hstart := lineStart_advance text
  unfold position Position.after
  rw [offset_advance, line_advance, Nat.zero_add, ← hstart, Nat.add_sub_cancel_left]

end Place

def IsLineEnd (text : List Char) : Prop :=
  text = ['\n'] ∨ text = ['\r', '\n']

/-- A line ends where a text begins. -/
def EndsHere (text : List Char) : Prop :=
  ∀ c ∈ text.head?, c = '\n'

/-- What may stand between tokens, before a text: blanks, the end of a line, a comment to the end of its
line, or a backslash right before the end of a line. -/
inductive IsTrivia : List Char → List Char → Prop
  | blanks {text after : List Char} (h : ∀ c ∈ text, Lexeme.isIndentation c = true) : IsTrivia text after
  | lineEnd {text after : List Char} (h : IsLineEnd text) : IsTrivia text after
  | comment {line after : List Char} (hline : '\n' ∉ line) (hend : EndsHere after) :
    IsTrivia ('#' :: line) after
  | backslash {lineEnd after : List Char} (h : IsLineEnd lineEnd) : IsTrivia ['\\'] (lineEnd ++ after)

/-- A carriage return between two texts that belongs to no end of a line, with nothing but indentation
before it on its line. -/
structure IsStrayReturn (before after : List Char) : Prop where
  first : ∃ head blanks, before = head ++ blanks ∧ (∀ c ∈ head.getLast?, c = '\n') ∧
    ∀ c ∈ blanks, Lexeme.isIndentation c = true
  lone : after.head? ≠ some '\n'

/-- The start of a source, cut up into what its tokens stand for, trivia, and what is lost: a line from a
stray carriage return on. -/
inductive Tiled (file : String) (source : List Char) : List Char → List Token → Prop
  | start : Tiled file source [] []
  | token {before piece : List Char} {tokens : List Token} {t : Token}
      (h : Tiled file source before tokens) (ht : t.Spans file before piece) :
      Tiled file source (before ++ piece) (tokens ++ [t])
  | trivia {before : List Char} {tokens : List Token} (piece after : List Char)
      (h : Tiled file source before tokens) (hsource : source = before ++ piece ++ after)
      (hpiece : IsTrivia piece after) : Tiled file source (before ++ piece) tokens
  | lost {before line after : List Char} {tokens : List Token} (h : Tiled file source before tokens)
      (hsource : source = before ++ '\r' :: line ++ after) (hstray : IsStrayReturn before (line ++ after))
      (hline : '\n' ∉ line) : Tiled file source (before ++ '\r' :: line) tokens

theorem isLineEnd_take {cs : List Char} {n : Nat} (h : Lexeme.lineEndLength? cs = some n) :
    IsLineEnd (cs.take n) ∧ 0 < n := by
  unfold Lexeme.lineEndLength? at h
  split at h
  · cases h
    exact ⟨.inl rfl, Nat.one_pos⟩
  · cases h
    exact ⟨.inr rfl, Nat.two_pos⟩
  · cases h

theorem newline_not_mem_takeWhile (cs : List Char) : '\n' ∉ cs.takeWhile (· != '\n') := by
  intro h
  have := List.mem_takeWhile_imp h
  simp at this

theorem endsHere_dropWhile (cs : List Char) : EndsHere (cs.dropWhile (· != '\n')) := by
  intro c hc
  have := List.head?_dropWhile_not (· != '\n') cs
  rw [Option.mem_def.1 hc] at this
  simpa using this

theorem EndsHere.cases {text : List Char} (h : EndsHere text) : text = [] ∨ ∃ rest, text = '\n' :: rest := by
  cases text with
  | nil => exact .inl rfl
  | cons c rest => exact .inr ⟨rest, congrArg (· :: rest) (h c rfl)⟩

namespace Tiled

variable {file : String} {source before : List Char} {tokens : List Token}

theorem lineEnd {tail : List Char} (h : Tiled file source before tokens) (hsource : source = before ++ tail)
    (htail : EndsHere tail) : Tiled file source (before ++ tail.take 1) tokens := by
  obtain rfl | ⟨rest, rfl⟩ := htail.cases
  · rw [List.take_nil, List.append_nil]
    exact h
  · refine h.trivia _ rest ?_ (.lineEnd (.inl rfl))
    rw [hsource, List.append_assoc]
    rfl

theorem triviaLexeme {cs : List Char} {n : Nat} (h : Tiled file source before tokens)
    (hsource : source = before ++ cs) (hrule : Lexeme.trivia? cs = some (.trivia, n)) :
    Tiled file source (before ++ cs.take (n - 1 + 1)) tokens := by
  unfold Lexeme.trivia? at hrule
  split at hrule
  · rename_i rest
    obtain ⟨m, hm, heq⟩ := Option.map_eq_some_iff.1 hrule
    cases heq
    have hend := (isLineEnd_take hm).1
    have hcut : rest.take m ++ rest.drop m = rest := List.take_append_drop m rest
    have hmark := h.trivia ['\\'] (rest.take m ++ rest.drop m)
      (by rw [hcut, hsource, List.append_assoc]; rfl) (.backslash hend)
    have hboth := hmark.trivia _ (rest.drop m)
      (by rw [List.append_assoc, hcut, hsource, List.append_assoc]; rfl) (.lineEnd hend)
    rwa [List.append_assoc] at hboth
  · rename_i rest
    cases hrule
    have hcut := List.takeWhile_append_dropWhile (p := (· != '\n')) (l := rest)
    rw [Nat.add_sub_cancel, List.take_succ_cons, take_runLength]
    refine h.trivia _ (rest.dropWhile (· != '\n')) ?_
      (.comment (newline_not_mem_takeWhile rest) (endsHere_dropWhile rest))
    rw [List.append_assoc, List.cons_append, hcut, hsource]
  · rename_i c rest _ _
    split at hrule
    · rename_i hc
      cases hrule
      have hcut := List.takeWhile_append_dropWhile (p := Lexeme.isIndentation) (l := rest)
      rw [Nat.add_sub_cancel, List.take_succ_cons, take_runLength]
      refine h.trivia _ (rest.dropWhile Lexeme.isIndentation) ?_ (.blanks fun d hd => ?_)
      · rw [List.append_assoc, List.cons_append, hcut, hsource]
      · obtain rfl | hd := List.mem_cons.1 hd
        · exact hc
        · exact List.mem_takeWhile_imp hd
    · cases hrule
  · cases hrule

theorem blankLine {line tail : List Char} (h : Tiled file source before tokens)
    (hsource : source = before ++ (line ++ tail)) (hstart : ∀ c ∈ before.getLast?, c = '\n')
    (hblank : Scan.isBlankLine (line ++ tail) = true) (hline : '\n' ∉ line) (htail : EndsHere tail) :
    Tiled file source (before ++ (line ++ tail.take 1)) tokens := by
  have hcut := List.takeWhile_append_dropWhile (p := Lexeme.isIndentation) (l := line)
  have hblanks : ∀ c ∈ line.takeWhile Lexeme.isIndentation, Lexeme.isIndentation c = true :=
    fun c hc => List.mem_takeWhile_imp hc
  rw [← List.append_assoc] at hsource ⊢
  unfold Scan.isBlankLine at hblank
  rw [List.dropWhile_append] at hblank
  generalize line.takeWhile Lexeme.isIndentation = blanks at hcut hblanks
  generalize line.dropWhile Lexeme.isIndentation = mark at hcut hblank
  subst hcut
  rw [← List.append_assoc] at hsource ⊢
  have hindented := h.trivia _ (mark ++ tail) (by rw [hsource, List.append_assoc]) (.blanks hblanks)
  have hmark : '\n' ∉ mark := fun hmem => hline (List.mem_append_right blanks hmem)
  cases mark with
  | nil =>
    rw [List.append_nil] at hsource ⊢
    exact hindented.lineEnd hsource htail
  | cons c rest =>
    have hrest : '\n' ∉ rest := fun hmem => hmark (List.mem_cons_of_mem c hmem)
    have hc : c = '\r' ∨ c = '#' := by
      have hne : c ≠ '\n' := fun hc => hmark (hc ▸ List.mem_cons_self)
      simpa [hne] using hblank
    obtain rfl | rfl := hc
    · by_cases hlone : (rest ++ tail).head? = some '\n'
      -- Then the carriage return and the line end after it are one line end.
      · cases rest with
        | cons d rest => exact absurd (List.mem_cons_self ..) (Option.some.inj hlone ▸ hrest)
        | nil =>
          obtain rfl | ⟨more, rfl⟩ := htail.cases
          · cases hlone
          · rw [List.append_assoc]
            refine hindented.trivia _ more ?_ (.lineEnd (.inr rfl))
            rw [hsource]
            simp
      · have hlost := hindented.lost hsource ⟨⟨before, blanks, rfl, hstart, hblanks⟩, hlone⟩ hrest
        exact hlost.lineEnd hsource htail
    · exact (hindented.trivia _ _ hsource (.comment hrest htail)).lineEnd hsource htail

end Tiled

namespace Scan

variable {file : String} {source before : List Char} {s t : Scan}

/-- A scan that has read the start of a source. -/
structure Stands (file : String) (source before : List Char) (s : Scan) : Prop where
  place : s.place = ({} : Place).advance before
  tiled : Tiled file source before s.inOrder

namespace Stands

theorem advance {piece : List Char} (hplace : s.place = ({} : Place).advance before)
    (htiled : Tiled file source (before ++ piece) s.inOrder) :
    (s.advance piece).Stands file source (before ++ piece) := by
  refine ⟨?_, htiled⟩
  exact (congrArg (Place.advance · piece) hplace).trans (Place.advance_append ..).symm

theorem push (h : s.Stands file source before) {kind : Kind} {value : String} {piece : List Char}
    (hvalue : kind.isVerbatim = true → value = String.ofList piece) :
    ((s.push file kind value (byteLength piece)).advance piece).Stands file source (before ++ piece) := by
  have hplace : s.place.position file = .after file before := by
    rw [h.place, Place.position_advance]
  refine advance (s := s.push file kind value (byteLength piece)) h.place ?_
  change Tiled file source _ (List.reverse (_ :: s.tokens))
  rw [List.reverse_cons, hplace]
  exact h.tiled.token ⟨rfl, hvalue⟩

theorem mark (h : s.Stands file source before) {kind : Kind} (hkind : kind.isVerbatim = false)
    (value : String) : (s.push file kind value 0).Stands file source before := by
  have hpush : ((s.push file kind value 0).advance []).Stands file source (before ++ []) :=
    h.push fun hverbatim => by
      rw [hkind] at hverbatim
      cases hverbatim
  rw [List.append_nil] at hpush
  exact hpush

theorem dedent (h : s.Stands file source before) (n : Nat) :
    (s.dedent file n).Stands file source before := by
  induction n generalizing s with
  | zero => exact h
  | succ n ih => exact ih (mark (s := { s with widths := s.widths.drop 1 }) ⟨h.place, h.tiled⟩ rfl "")

theorem indentTo (h : s.Stands file source before) {w : Nat} (ht : s.indentTo file w = .ok t) :
    t.Stands file source before := by
  unfold Scan.indentTo at ht
  split at ht
  · cases ht
    exact mark (s := { s with widths := w :: s.widths }) ⟨h.place, h.tiled⟩ rfl ""
  · simp only at ht
    split at ht
    · cases ht
      exact h.dedent _
    · cases ht

theorem endLine (h : s.Stands file source before) {piece after : List Char}
    (hsource : source = before ++ piece ++ after) (hpiece : IsLineEnd piece) :
    ((s.endLine file (byteLength piece)).advance piece).Stands file source (before ++ piece) := by
  unfold Scan.endLine
  split
  · exact advance h.place (h.tiled.trivia _ _ hsource (.lineEnd hpiece))
  · exact h.push nofun

theorem takeLexeme (h : s.Stands file source before) {cs : List Char} {lexeme : Lexeme} {n : Nat}
    (hsource : source = before ++ cs) (hrule : lexeme.rule? cs = some (lexeme, n))
    (ht : s.takeLexeme file lexeme (cs.take (n - 1 + 1)) = .ok t) :
    t.Stands file source (before ++ cs.take (n - 1 + 1)) := by
  unfold Scan.takeLexeme at ht
  cases lexeme with
  | literal tag triple =>
    cases ht
    exact h.push fun hverbatim =>
      nomatch (Kind.isVerbatim_literal tag triple (cs.take (n - 1 + 1))).symm.trans hverbatim
  | openLiteral => cases ht
  | word =>
    cases ht
    exact h.push fun _ => rfl
  | numeral =>
    cases ht
    exact h.push fun _ => rfl
  | lineEnd =>
    obtain ⟨m, hm, heq⟩ := Option.map_eq_some_iff.1 hrule
    cases heq
    obtain ⟨hend, hpos⟩ := isLineEnd_take hm
    have hsource : source = before ++ cs.take n ++ cs.drop n := by
      rw [List.append_assoc, List.take_append_drop, hsource]
    rw [Nat.sub_add_cancel hpos] at ht ⊢
    simp only at ht
    split at ht
    · cases ht
      have hline := h.endLine hsource hend
      exact ⟨hline.place, hline.tiled⟩
    · cases ht
      exact advance h.place (h.tiled.trivia _ _ hsource (.lineEnd hend))
  | trivia =>
    cases ht
    exact advance h.place (h.tiled.triviaLexeme hsource hrule)
  | mark kind =>
    cases ht
    exact h.push fun _ => rfl

theorem step (h : s.Stands file source before) {text rest : List Char}
    (hsource : source = before ++ (text ++ rest))
    (hstart : s.fresh = true → text ++ rest ≠ [] → ∀ c ∈ before.getLast?, c = '\n')
    (hstep : Step file s text rest t) : t.Stands file source (before ++ text) := by
  cases hstep with
  | blank hfresh hne hblank htext =>
    replace hstart := hstart hfresh fun hnil => hne (List.append_eq_nil_iff.1 hnil).1
    generalize text ++ rest = cs at hsource hblank htext
    subst htext
    have hcut := List.takeWhile_append_dropWhile (p := (· != '\n')) (l := cs)
    refine advance h.place ?_
    have hline := h.tiled.blankLine (by rw [hcut]; exact hsource) hstart
      (by rw [hcut]; exact hblank) (newline_not_mem_takeWhile cs) (endsHere_dropWhile cs)
    rwa [← take_runLength, ← drop_runLength, ← List.take_add] at hline
  | indentation hfresh hblank htext hindent =>
    have hblanks : ∀ c ∈ text, Lexeme.isIndentation c = true := fun c hc =>
      List.mem_takeWhile_imp (htext ▸ hc)
    rw [← List.append_assoc] at hsource
    have hread := (advance h.place (h.tiled.trivia _ _ hsource (.blanks hblanks))).indentTo hindent
    exact ⟨hread.place, hread.tiled⟩
  | lexeme _ hlexeme htext htake =>
    generalize text ++ rest = cs at hsource hlexeme htext
    subst htext
    exact h.takeLexeme hsource (Lexeme.rule?_of_ofText? hlexeme) htake

theorem finish (h : s.Stands file source before) : Tiled file source before (s.finish file) := by
  have hline : (s.endLine file 0).Stands file source before := by
    unfold Scan.endLine
    split
    · exact h
    · exact h.mark rfl "\n"
  exact ((hline.dedent _).mark rfl "EOF").tiled

end Stands

theorem Step.getLast?_text {text rest : List Char} (h : Step file s text rest t) (hfresh : t.fresh = true)
    (hrest : rest ≠ []) : text.getLast? = some '\n' := by
  cases h with
  | blank _ _ _ htext =>
    generalize hcs : text ++ rest = cs at htext
    have hdrop : rest = (cs.dropWhile (· != '\n')).drop 1 := by
      rw [← drop_runLength, List.drop_drop, ← List.append_cancel_left_eq text, hcs, htext]
      exact (List.take_append_drop ..).symm
    obtain hnil | ⟨more, hmore⟩ := (endsHere_dropWhile cs).cases
    · rw [hnil] at hdrop
      exact absurd hdrop hrest
    · rw [htext, List.take_add, drop_runLength, hmore]
      exact List.getLast?_concat
  | indentation => cases hfresh
  | @lexeme _ lexeme n hs hlexeme htext htake =>
    have hkept (hsame : t.fresh = s.fresh) : text.getLast? = some '\n' := by
      rw [hsame, hs] at hfresh
      cases hfresh
    unfold Scan.takeLexeme at htake
    cases lexeme with
    | openLiteral => cases htake
    | lineEnd =>
      obtain ⟨m, hm, heq⟩ := Option.map_eq_some_iff.1 (Lexeme.rule?_of_ofText? hlexeme)
      cases heq
      obtain ⟨hend, hpos⟩ := isLineEnd_take hm
      rw [htext, Nat.sub_add_cancel hpos]
      obtain hend | hend := hend <;> rw [hend] <;> rfl
    | _ =>
      cases htake
      exact hkept rfl

/-- Whatever is read of a source is cut up, and faults have the place where it has been read to. -/
theorem run_stands (file : String) (source : List Char) :
    match run file {} source with
    | .ok s => s.Stands file source source
    | .error fault => ∃ before after, source = before ++ after ∧ fault.position = .after file before := by
  have hrun := run_of_steps file {} source
    (P := fun s rest => ∃ before, source = before ++ rest ∧ s.Stands file source before ∧
      (s.fresh = true → rest ≠ [] → ∀ c ∈ before.getLast?, c = '\n'))
    (fun s t text rest ⟨before, hsource, hs, hstart⟩ hstep =>
      ⟨before ++ text, (hsource.trans (List.append_assoc ..).symm), hs.step hsource hstart hstep,
        fun hfresh hrest c hc => by
          rw [List.getLast?_append, hstep.getLast?_text hfresh hrest] at hc
          exact (Option.some.inj hc).symm⟩)
    ⟨[], rfl, ⟨rfl, .start⟩, nofun⟩
  cases hresult : run file {} source with
  | ok s =>
    rw [hresult] at hrun
    obtain ⟨before, hsource, hs, -⟩ := hrun
    rw [List.append_nil] at hsource
    exact hsource ▸ hs
  | error fault =>
    rw [hresult] at hrun
    obtain ⟨s, text, rest, ⟨before, hsource, hs, -⟩, hplace⟩ := hrun
    refine ⟨before ++ text, rest, hsource.trans (List.append_assoc ..).symm, ?_⟩
    rw [hplace, hs.place, ← Place.advance_append, Place.position_advance]

end Scan

theorem tiled_of_tokenize {source file : String} {tokens : List Token}
    (h : tokenize source file = .ok tokens) : Tiled file source.toList source.toList tokens := by
  obtain ⟨s, hrun, rfl⟩ := Scan.exists_run_of_tokenize h
  have hs := Scan.run_stands file source.toList
  rw [hrun] at hs
  exact hs.finish

theorem exists_after_of_tokenize_error {source file : String} {fault : Fault}
    (h : tokenize source file = .error fault) :
    ∃ before after, source.toList = before ++ after ∧ fault.position = .after file before := by
  have hs := Scan.run_stands file source.toList
  unfold tokenize at h
  cases hrun : Scan.run file {} source.toList with
  | ok s =>
    rw [hrun] at h
    cases h
  | error stop =>
    rw [hrun] at h hs
    cases h
    exact hs

namespace Tiled

variable {file : String} {source before : List Char} {tokens : List Token}

theorem exists_spans (h : Tiled file source before tokens) {t : Token} (ht : t ∈ tokens) :
    ∃ head piece after, before = head ++ piece ++ after ∧ t.Spans file head piece := by
  induction h with
  | start => cases ht
  | @token before piece tokens u h hu ih =>
    obtain ht | ht := List.mem_append.1 ht
    · obtain ⟨head, text, after, rfl, hspans⟩ := ih ht
      exact ⟨head, text, after ++ piece, List.append_assoc .., hspans⟩
    · cases List.mem_singleton.1 ht
      exact ⟨before, piece, [], (List.append_nil _).symm, hu⟩
  | trivia piece _ _ _ _ ih =>
    obtain ⟨head, text, after, rfl, hspans⟩ := ih ht
    exact ⟨head, text, after ++ piece, List.append_assoc .., hspans⟩
  | @lost before line after tokens h _ _ _ ih =>
    obtain ⟨head, text, after, rfl, hspans⟩ := ih ht
    exact ⟨head, text, after ++ '\r' :: line, List.append_assoc .., hspans⟩

end Tiled

theorem Spans.start_offset {file : String} {before piece : List Char} {t : Token}
    (h : t.Spans file before piece) : t.span.start.offset = byteLength before := by
  rw [h.span]
  rfl

theorem Spans.stop_offset {file : String} {before piece : List Char} {t : Token}
    (h : t.Spans file before piece) : t.span.stop.offset = byteLength (before ++ piece) := by
  rw [h.span, byteLength_append]
  rfl

namespace Tiled

variable {file : String} {source before : List Char} {tokens : List Token}

theorem stop_le (h : Tiled file source before tokens) {t : Token} (ht : t ∈ tokens) :
    t.span.stop.offset ≤ byteLength before := by
  obtain ⟨head, piece, after, rfl, hspans⟩ := h.exists_spans ht
  rw [hspans.stop_offset, byteLength_append (head ++ piece)]
  exact Nat.le_add_right _ _

theorem ordered (h : Tiled file source before tokens) :
    tokens.Pairwise fun t u => t.span.stop.offset ≤ u.span.start.offset := by
  induction h with
  | start => exact .nil
  | token h hu ih =>
    refine List.pairwise_append.2 ⟨ih, List.pairwise_singleton _ _, fun t ht u hmem => ?_⟩
    cases List.mem_singleton.1 hmem
    rw [hu.start_offset]
    exact h.stop_le ht
  | trivia _ _ _ _ _ ih | lost _ _ _ _ ih => exact ih

end Tiled

/-- The places of tokens and faults are exact. Each token stands for a piece of its source, at the place
that the text before the piece gives, and shows the piece if it is no string and no layout; tokens come in
order and do not overlap; and a fault is at a place of the source, which the text before it gives. -/
theorem places_of_tokenize (source file : String) :
    (∀ tokens, tokenize source file = .ok tokens →
      (∀ t ∈ tokens, ∃ before piece after, source.toList = before ++ piece ++ after ∧
        t.Spans file before piece) ∧
      tokens.Pairwise fun t u => t.span.stop.offset ≤ u.span.start.offset) ∧
    ∀ fault, tokenize source file = .error fault →
      ∃ before after, source.toList = before ++ after ∧ fault.position = .after file before := by
  refine ⟨fun tokens h => ?_, fun fault => exists_after_of_tokenize_error⟩
  have htiled := tiled_of_tokenize h
  exact ⟨fun t => htiled.exists_spans, htiled.ordered⟩

/-- A literal over two lines comes before a name, and a character of two bytes before a fault. -/
theorem places_of_tokenize_two_lines :
    ∃ tokens fault, tokenize "é = \"\"\"a\nb\"\"\" + x" "main.py" = .ok tokens ∧
      tokenize "é\n = $" "main.py" = .error fault ∧
      tokens.map (fun t => (t.span.start, t.span.stop.offset)) =
        [(⟨0, 1, 0, "main.py"⟩, 2), (⟨3, 1, 3, "main.py"⟩, 4), (⟨5, 1, 5, "main.py"⟩, 14),
          (⟨15, 2, 5, "main.py"⟩, 16), (⟨17, 2, 7, "main.py"⟩, 18), (⟨18, 2, 8, "main.py"⟩, 18),
          (⟨18, 2, 8, "main.py"⟩, 18)] ∧
      fault.position = ⟨6, 2, 3, "main.py"⟩ ∧
      (∀ t ∈ tokens, ∃ before piece after,
        "é = \"\"\"a\nb\"\"\" + x".toList = before ++ piece ++ after ∧ t.Spans "main.py" before piece) ∧
      tokens.Pairwise (fun t u => t.span.stop.offset ≤ u.span.start.offset) ∧
      ∃ before after, "é\n = $".toList = before ++ after ∧ fault.position = .after "main.py" before := by
  have hplaces : (tokenize "é = \"\"\"a\nb\"\"\" + x" "main.py").toOption.map
      (fun ts => ts.map fun t => (t.span.start, t.span.stop.offset)) =
      some [(⟨0, 1, 0, "main.py"⟩, 2), (⟨3, 1, 3, "main.py"⟩, 4), (⟨5, 1, 5, "main.py"⟩, 14),
          (⟨15, 2, 5, "main.py"⟩, 16), (⟨17, 2, 7, "main.py"⟩, 18), (⟨18, 2, 8, "main.py"⟩, 18),
          (⟨18, 2, 8, "main.py"⟩, 18)] := by
    decide +kernel
  have hposition : (match tokenize "é\n = $" "main.py" with
      | .ok _ => none
      | .error fault => some fault.position) = some ⟨6, 2, 3, "main.py"⟩ := by
    decide +kernel
  cases htokens : tokenize "é = \"\"\"a\nb\"\"\" + x" "main.py" with
  | error fault =>
    rw [htokens] at hplaces
    cases hplaces
  | ok tokens =>
    rw [htokens] at hplaces
    cases hfault : tokenize "é\n = $" "main.py" with
    | ok tokens =>
      rw [hfault] at hposition
      cases hposition
    | error fault =>
      rw [hfault] at hposition
      obtain ⟨hspans, hordered⟩ := (places_of_tokenize _ _).1 tokens htokens
      exact ⟨tokens, fault, rfl, rfl, Option.some.inj hplaces, Option.some.inj hposition, hspans, hordered,
        (places_of_tokenize _ _).2 fault hfault⟩

end Token

end Credence

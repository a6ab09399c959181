import Credence.Proofs.Layout
import Credence.Proofs.Spelling
import Mathlib.Data.List.Find

namespace Credence.Token

open Text Grammar

/-- What a parser reads of a token. -/
abbrev Face :=
  Kind × String

def face (t : Token) : Face :=
  (t.kind, t.value)

@[irreducible]
def Kind.ofSpelling (word : String) : Kind :=
  match Kind.marks.find? fun m => m.1 == word.toList with
  | some m => m.2
  | none => Kind.ofWord word

def spelled (word : String) : Face :=
  (Kind.ofSpelling word, word)

def isMarkLike (c : Char) : Bool :=
  !(startsName c || c.isDigit || Lexeme.isIndentation c || Literal.isQuote c ||
    ['\n', '\r', '\\', '#'].contains c)

theorem isMarkLike_of_mem_marks {m : List Char × Kind} (hm : m ∈ Kind.marks) :
    m.1 ≠ [] ∧ ∀ c ∈ m.1, isMarkLike c = true := by
  have hall : ∀ m ∈ Kind.marks, m.1 ≠ [] ∧ m.1.all isMarkLike = true := by decide +kernel
  exact ⟨(hall m hm).1, List.all_eq_true.1 (hall m hm).2⟩

theorem ofSpelling_of_startsName {word : String} (h : word.toList.head?.any startsName = true) :
    Kind.ofSpelling word = Kind.ofWord word := by
  have hnone : (Kind.marks.find? fun m => m.1 == word.toList) = none := by
    refine List.find?_eq_none.2 fun m hm hword => ?_
    obtain ⟨hne, hlike⟩ := isMarkLike_of_mem_marks hm
    rw [← eq_of_beq hword] at h
    obtain ⟨c, cs, hcs⟩ := List.exists_cons_of_ne_nil hne
    have hc := hlike c (hcs ▸ List.mem_cons_self)
    rw [hcs] at h
    have h : startsName c = true := h
    rw [isMarkLike, h] at hc
    cases hc
  unfold Kind.ofSpelling
  rw [hnone]

def IsLettered (word : String) : Prop :=
  word.toList.head?.any startsName = true ∧ ∀ c ∈ word.toList, continuesName c = true

/-- A word that is an operator or a bracket. -/
def IsMark (word : String) : Prop :=
  Kind.marks.find? (fun m => m.1.isPrefixOf word.toList) = some (word.toList, Kind.ofSpelling word)

theorem isLettered_or_isMark {word : String} (h : IsWord word) : IsLettered word ∨ IsMark word := by
  have hfixed : ∀ w ∈ fixedWords,
      (w.toList.head?.any startsName = true ∧ w.toList.all continuesName = true) ∨
      Kind.marks.find? (fun m => m.1.isPrefixOf w.toList) = some (w.toList, Kind.ofSpelling w) := by
    decide +kernel
  obtain hname | hmem := h
  · exact .inl ⟨hname.starts, hname.continues⟩
  · exact (hfixed word hmem).imp (fun h => ⟨h.1, List.all_eq_true.1 h.2⟩) id

def Apart (cs : List Char) : Prop :=
  ∀ c ∈ cs.head?, c = ' ' ∨ c = '\n'

def Unquoted (cs : List Char) : Prop :=
  ∀ c ∈ cs, Literal.isQuote c = false

theorem literal?_eq_none {cs : List Char} (h : Unquoted cs) : Lexeme.literal? cs = none := by
  have hhead (n : Nat) : (cs.drop n).head?.any Literal.isQuote = false := by
    cases hdrop : cs.drop n with
    | nil => rfl
    | cons c rest => exact h c (List.mem_of_mem_drop (hdrop ▸ List.mem_cons_self))
  unfold Lexeme.literal? Literal.tag?
  simp only [hhead, Bool.and_false, Bool.false_eq_true, if_false]

theorem takeWhile_append_apart {p : Char → Bool} {w rest : List Char} (hw : ∀ c ∈ w, p c = true)
    (hrest : Apart rest) (hspace : p ' ' = false) (hline : p '\n' = false) :
    (w ++ rest).takeWhile p = w := by
  rw [List.takeWhile_append_of_pos hw]
  cases rest with
  | nil => exact List.append_nil w
  | cons c rest =>
    have hc : p c = false := by
      obtain rfl | rfl := hrest c rfl
      · exact hspace
      · exact hline
    rw [List.takeWhile_cons_of_neg (by rw [hc]; nofun), List.append_nil]

theorem ofText?_of_isLettered {word : String} {rest : List Char} (h : IsLettered word)
    (hrest : Apart rest) (hquotes : Unquoted (word.toList ++ rest)) :
    Lexeme.ofText? (word.toList ++ rest) = some (.word, word.toList.length) := by
  have hstart : (word.toList ++ rest).head?.any startsName = true := by
    cases hw : word.toList with
    | nil => have h := h.1; rw [hw] at h; cases h
    | cons c cs => have h := h.1; rw [hw] at h; exact h
  have hword : Lexeme.word? (word.toList ++ rest) = some (.word, word.toList.length) := by
    unfold Lexeme.word?
    rw [if_pos hstart]
    unfold runLength
    rw [takeWhile_append_apart h.2 hrest (by decide) (by decide)]
  unfold Lexeme.ofText?
  rw [literal?_eq_none hquotes, hword]
  rfl

theorem isPrefixOf_append_apart {m w rest : List Char} (hm : ∀ c ∈ m, isMarkLike c = true)
    (hrest : Apart rest) : m.isPrefixOf (w ++ rest) = m.isPrefixOf w := by
  induction m generalizing w with
  | nil => rfl
  | cons c m ih =>
    cases w with
    | nil =>
      cases rest with
      | nil => rfl
      | cons d rest =>
        have hc := hm c List.mem_cons_self
        have hne : c ≠ d := by
          rintro rfl
          obtain rfl | rfl := hrest c rfl <;> exact absurd hc (by decide)
        simp [List.isPrefixOf, hne]
    | cons d w =>
      simp only [List.cons_append, List.isPrefixOf]
      rw [ih fun c hc => hm c (List.mem_cons_of_mem _ hc)]

theorem wholeLength_eq_zero {cs rest : List Char} (hcs : ∀ c ∈ cs, isMarkLike c = true)
    (hrest : Apart rest) : Numeral.wholeLength (cs ++ rest) = 0 := by
  have hdigit : (cs ++ rest).head?.any Char.isDigit = false := by
    cases cs with
    | nil =>
      cases rest with
      | nil => rfl
      | cons c rest => obtain rfl | rfl := hrest c rfl <;> rfl
    | cons c cs =>
      have hc := hcs c List.mem_cons_self
      simp only [isMarkLike, Bool.not_eq_true', Bool.or_eq_false_iff] at hc
      exact hc.1.1.1.2
  unfold Numeral.wholeLength
  rw [hdigit]
  rfl

theorem numeral_length?_eq_none {c : Char} {cs rest : List Char}
    (hcs : ∀ d ∈ c :: cs, isMarkLike d = true) (hrest : Apart rest) :
    Numeral.length? (c :: cs ++ rest) = none := by
  have hwhole := wholeLength_eq_zero hcs hrest
  have hplaces := wholeLength_eq_zero (fun d hd => hcs d (List.mem_cons_of_mem _ hd)) hrest
  have hbased : Numeral.basedLength? (c :: cs ++ rest) = none := by
    unfold Numeral.basedLength?
    split
    · rename_i heq
      have hc := hcs c List.mem_cons_self
      rw [(List.cons.inj heq).1] at hc
      exact absurd hc (by decide)
    · rfl
  have hpointed : Numeral.pointedLength? (c :: cs ++ rest) = none := by
    unfold Numeral.pointedLength?
    simp only [hwhole, List.drop_zero]
    split
    · rename_i heq
      have hrest := (List.cons.inj heq).2
      change cs ++ rest = _ at hrest
      rw [← hrest, if_pos hplaces]
    · rfl
  unfold Numeral.length? Numeral.plainLength?
  simp only [hbased, hpointed, hwhole, if_true]
  rfl

theorem mark?_of_isMark {word : String} {rest : List Char} (h : IsMark word) (hrest : Apart rest) :
    Lexeme.mark? (word.toList ++ rest) = some (.mark (Kind.ofSpelling word), word.toList.length) := by
  have hfind : (Kind.marks.find? fun m => m.1.isPrefixOf (word.toList ++ rest)) =
      some (word.toList, Kind.ofSpelling word) := by
    rw [← h]
    refine List.find?_congr fun m hm => ?_
    exact isPrefixOf_append_apart (isMarkLike_of_mem_marks hm).2 hrest
  unfold Lexeme.mark?
  rw [hfind]
  rfl

theorem word?_eq_none {c : Char} {cs : List Char} (h : startsName c = false) :
    Lexeme.word? (c :: cs) = none := by
  unfold Lexeme.word?
  rw [if_neg]
  rw [List.head?_cons, Option.any_some, h]
  nofun

theorem lineEndLength?_eq_none {c : Char} {cs : List Char} (hnewline : c ≠ '\n')
    (hreturn : c ≠ '\r') : Lexeme.lineEndLength? (c :: cs) = none := by
  unfold Lexeme.lineEndLength?
  split
  · rename_i heq
    exact absurd (List.cons.inj heq).1 hnewline
  · rename_i heq
    exact absurd (List.cons.inj heq).1 hreturn
  · rfl

theorem trivia?_eq_none {c : Char} {cs : List Char} (hslash : c ≠ '\\') (hcomment : c ≠ '#')
    (hblank : Lexeme.isIndentation c = false) : Lexeme.trivia? (c :: cs) = none := by
  unfold Lexeme.trivia?
  split
  · rename_i heq
    exact absurd (List.cons.inj heq).1 hslash
  · rename_i heq
    exact absurd (List.cons.inj heq).1 hcomment
  · rename_i heq
    rw [← (List.cons.inj heq).1, if_neg (by rw [hblank]; nofun)]
  · rfl

theorem ofText?_of_isMark {word : String} {rest : List Char} (h : IsMark word) (hrest : Apart rest)
    (hquotes : Unquoted (word.toList ++ rest)) :
    Lexeme.ofText? (word.toList ++ rest) =
      some (.mark (Kind.ofSpelling word), word.toList.length) := by
  have hlike : word.toList ≠ [] ∧ ∀ c ∈ word.toList, isMarkLike c = true :=
    isMarkLike_of_mem_marks (List.mem_of_find?_eq_some h)
  have hmark := mark?_of_isMark h hrest
  have hliteral := literal?_eq_none hquotes
  obtain ⟨c, cs, hcs⟩ := List.exists_cons_of_ne_nil hlike.1
  rw [hcs] at hmark hlike hliteral ⊢
  have hnumeral := numeral_length?_eq_none hlike.2 hrest
  rw [List.cons_append] at hmark hliteral hnumeral ⊢
  have hc := hlike.2 c List.mem_cons_self
  simp only [isMarkLike, Bool.not_eq_true', Bool.or_eq_false_iff, List.contains_cons,
    List.contains_nil, Bool.or_false, beq_eq_false_iff_ne] at hc
  obtain ⟨⟨⟨⟨hstart, _⟩, hblank⟩, _⟩, hnewline, hreturn, hslash, hcomment⟩ := hc
  unfold Lexeme.ofText?
  rw [hliteral, word?_eq_none hstart, hnumeral, lineEndLength?_eq_none hnewline hreturn,
    trivia?_eq_none hslash hcomment hblank]
  exact hmark

theorem exists_head_of_isWord {word : String} (h : IsWord word) :
    ∃ c cs, word.toList = c :: cs ∧ Lexeme.isIndentation c = false ∧ c ≠ '\n' ∧ c ≠ '\r' ∧ c ≠ '#' := by
  obtain ⟨hstart, _⟩ | hmark := isLettered_or_isMark h
  · cases hw : word.toList with
    | nil => rw [hw] at hstart; cases hstart
    | cons c cs =>
      rw [hw] at hstart
      have hstart : startsName c = true := hstart
      have hother {d : Char} (hd : startsName d = false) : c ≠ d := by
        rintro rfl
        rw [hstart] at hd
        cases hd
      refine ⟨c, cs, rfl, ?_, hother (by decide), hother (by decide), hother (by decide)⟩
      unfold Lexeme.isIndentation
      rw [beq_eq_false_iff_ne.2 (hother (d := ' ') (by decide)),
        beq_eq_false_iff_ne.2 (hother (d := '\t') (by decide)),
        beq_eq_false_iff_ne.2 (hother (d := '\x0c') (by decide))]
      rfl
  · have hlike : word.toList ≠ [] ∧ ∀ c ∈ word.toList, isMarkLike c = true :=
      isMarkLike_of_mem_marks (List.mem_of_find?_eq_some hmark)
    obtain ⟨c, cs, hcs⟩ := List.exists_cons_of_ne_nil hlike.1
    have hc := hlike.2 c (hcs ▸ List.mem_cons_self)
    simp only [isMarkLike, Bool.not_eq_true', Bool.or_eq_false_iff, List.contains_cons,
      List.contains_nil, Bool.or_false, beq_eq_false_iff_ne] at hc
    exact ⟨c, cs, hcs, hc.1.1.2, hc.2.1, hc.2.2.1, hc.2.2.2.2⟩

theorem unquoted_of_isWord {word : String} (h : IsWord word) : Unquoted word.toList := by
  intro c hc
  obtain ⟨_, hcontinues⟩ | hmark := isLettered_or_isMark h
  · refine Bool.eq_false_iff.2 fun hquote => ?_
    unfold Literal.isQuote at hquote
    have hcontinues := hcontinues c hc
    simp only [Bool.or_eq_true, beq_iff_eq] at hquote
    obtain rfl | rfl := hquote <;> exact absurd hcontinues (by decide)
  · have hlike : word.toList ≠ [] ∧ ∀ c ∈ word.toList, isMarkLike c = true :=
      isMarkLike_of_mem_marks (List.mem_of_find?_eq_some hmark)
    have hc := hlike.2 c hc
    simp only [isMarkLike, Bool.not_eq_true', Bool.or_eq_false_iff] at hc
    exact hc.1.2

theorem isPlain_ofSpelling (word : String) : (Kind.ofSpelling word).IsPlain := by
  have hmarks : ∀ m ∈ Kind.marks, m.2.isLayout = false ∧ m.2 ≠ .eof := by decide
  unfold Kind.ofSpelling
  split
  · rename_i m hm
    exact hmarks m (List.mem_of_find?_eq_some hm)
  · exact Kind.isPlain_ofWord word

namespace Scan

variable {file : String} {s : Scan}

/-- What a parser reads of the tokens of a scan. -/
def faces (s : Scan) : List Face :=
  s.inOrder.map face

theorem faces_push (s : Scan) (kind : Kind) (value : String) (length : Nat) :
    (s.push file kind value length).faces = s.faces ++ [(kind, value)] := by
  unfold faces inOrder push
  rw [List.reverse_cons, List.map_append]
  rfl

theorem run_lexeme {w rest : List Char} {lexeme : Lexeme} {t : Scan} (hs : s.fresh = false)
    (hne : w ≠ []) (hlexeme : Lexeme.ofText? (w ++ rest) = some (lexeme, w.length))
    (ht : s.takeLexeme file lexeme w = .ok t) : run file s (w ++ rest) = run file t rest :=
  (Step.of_lexeme hs hne hlexeme ht).run

theorem exists_run_word (file : String) {word : String} {rest : List Char} (hs : s.fresh = false)
    (hword : IsWord word) (hrest : Apart rest) (hquotes : Unquoted rest) :
    ∃ length, run file s (word.toList ++ rest) =
      run file ((s.push file (Kind.ofSpelling word) word length).advance word.toList) rest := by
  have hquotes : Unquoted (word.toList ++ rest) :=
    List.forall_mem_append.2 ⟨unquoted_of_isWord hword, hquotes⟩
  obtain ⟨c, cs, hcs, _⟩ := exists_head_of_isWord hword
  have hne : word.toList ≠ [] := by rw [hcs]; nofun
  refine ⟨byteLength word.toList, ?_⟩
  obtain hlettered | hmark := isLettered_or_isMark hword
  · refine run_lexeme hs hne (ofText?_of_isLettered hlettered hrest hquotes) ?_
    rw [ofSpelling_of_startsName hlettered.1]
    unfold takeLexeme
    simp only [String.ofList_toList]
  · refine run_lexeme hs hne (ofText?_of_isMark hmark hrest hquotes) ?_
    unfold takeLexeme
    simp only [String.ofList_toList]

theorem run_spaces {rest : List Char} (hs : s.fresh = false) (n : Nat)
    (hrest : rest.head?.any Lexeme.isIndentation = false) (hquotes : Unquoted rest) :
    run file s (List.replicate n ' ' ++ rest) =
      run file (s.advance (List.replicate n ' ')) rest := by
  cases n with
  | zero => rfl
  | succ n =>
    have hspaces : ∀ c ∈ List.replicate n ' ', c = ' ' := fun c hc => (List.mem_replicate.1 hc).2
    have hcount : runLength Lexeme.isIndentation (List.replicate n ' ' ++ rest) = n := by
      have hstop : rest.takeWhile Lexeme.isIndentation = [] := by
        cases rest with
        | nil => rfl
        | cons c rest => exact List.takeWhile_cons_of_neg (Bool.eq_false_iff.1 hrest)
      unfold runLength
      rw [List.takeWhile_append_of_pos fun c hc => by rw [hspaces c hc]; rfl, hstop, List.append_nil,
        List.length_replicate]
    have hunquoted : Unquoted (' ' :: (List.replicate n ' ' ++ rest)) :=
      List.forall_mem_cons.2 ⟨rfl, List.forall_mem_append.2
        ⟨fun c hc => by rw [hspaces c hc]; rfl, hquotes⟩⟩
    have hlexeme : Lexeme.ofText? (List.replicate (n + 1) ' ' ++ rest) =
        some (.trivia, (List.replicate (n + 1) ' ').length) := by
      have hword : Lexeme.word? (' ' :: (List.replicate n ' ' ++ rest)) = none := rfl
      have hnumeral : Numeral.length? (' ' :: (List.replicate n ' ' ++ rest)) = none := rfl
      have htrivia : Lexeme.trivia? (' ' :: (List.replicate n ' ' ++ rest)) =
          some (.trivia, n + 1) := by
        change some (Lexeme.trivia, runLength Lexeme.isIndentation _ + 1) = _
        rw [hcount]
      rw [List.length_replicate, List.replicate_succ, List.cons_append]
      unfold Lexeme.ofText?
      rw [literal?_eq_none hunquoted, hword, hnumeral, htrivia]
      rfl
    exact run_lexeme hs (by simp) hlexeme rfl

theorem step_start {c : Char} {cs : List Char} (hblank : Lexeme.isIndentation c = false)
    (hline : c ≠ '\n') (hreturn : c ≠ '\r') (hcomment : c ≠ '#') :
    Step file {} [] (c :: cs) { fresh := false } := by
  have hindent : Lexeme.isIndentation c ≠ true := by
    rw [hblank]
    exact Bool.false_ne_true
  have hword : isBlankLine (c :: cs) = false := by
    unfold isBlankLine
    rw [List.dropWhile_cons_of_neg hindent]
    simp [hline, hreturn, hcomment]
  exact .indentation (u := {}) rfl hword (List.takeWhile_cons_of_neg hindent).symm rfl

theorem run_start {c : Char} {cs : List Char} (hblank : Lexeme.isIndentation c = false)
    (hline : c ≠ '\n') (hreturn : c ≠ '\r') (hcomment : c ≠ '#') :
    run file {} (c :: cs) = run file { fresh := false } (c :: cs) :=
  (step_start hblank hline hreturn hcomment).run

theorem exists_run_end (file : String) {ending : List Char} (hs : s.fresh = false) (hlast : s.atLineEnd = false)
    (hending : ending = [] ∨ ending = ['\n']) :
    ∃ t, run file s ending = .ok t ∧ t.widths = s.widths ∧
      (t.endLine file 0).faces = s.faces ++ [(.newline, "\n")] := by
  have hend (u : Scan) (hu : u.atLineEnd = false) (length : Nat) :
      (u.endLine file length).faces = u.faces ++ [(.newline, "\n")] := by
    unfold endLine
    rw [if_neg (by rw [hu]; nofun)]
    exact faces_push u _ _ _
  obtain rfl | rfl := hending
  · exact ⟨s, by rw [run], rfl, hend s hlast 0⟩
  · have hlexeme : Lexeme.ofText? (['\n'] ++ []) = some (.lineEnd, ['\n'].length) := rfl
    by_cases hdepth : s.depth = 0
    · let t : Scan := { s.endLine file (byteLength ['\n']) with fresh := true }
      have htake : s.takeLexeme file .lineEnd ['\n'] = .ok (t.advance ['\n']) := if_pos hdepth
      have hrun := (run_lexeme hs (List.cons_ne_nil _ _) hlexeme htake).trans (by rw [run])
      refine ⟨t.advance ['\n'], hrun, widths_endLine s _, ?_⟩
      have hended : (t.advance ['\n']).atLineEnd = true := by
        change (s.endLine file (byteLength ['\n'])).atLineEnd = true
        unfold endLine
        rw [if_neg (by rw [hlast]; nofun)]
        rfl
      rw [endLine, if_pos hended]
      exact hend s hlast _
    · have htake : s.takeLexeme file .lineEnd ['\n'] = .ok (s.advance ['\n']) := if_neg hdepth
      have hrun := (run_lexeme hs (List.cons_ne_nil _ _) hlexeme htake).trans (by rw [run])
      exact ⟨s.advance ['\n'], hrun, rfl, hend (s.advance ['\n']) hlast 0⟩

theorem unquoted_of_spaced {words : List String} {line : List Char} (h : Spaced words line)
    (hwords : ∀ w ∈ words, IsWord w) : Unquoted line := by
  induction h with
  | last word n =>
    exact List.forall_mem_append.2 ⟨unquoted_of_isWord (hwords _ List.mem_cons_self),
      fun c hc => by rw [(List.mem_replicate.1 hc).2]; rfl⟩
  | cons word n h ih =>
    obtain ⟨hword, hwords⟩ := List.forall_mem_cons.1 hwords
    exact List.forall_mem_append.2 ⟨unquoted_of_isWord hword, List.forall_mem_append.2
      ⟨fun c hc => by rw [(List.mem_replicate.1 hc).2]; rfl, ih hwords⟩⟩

theorem exists_head_of_spaced {words : List String} {line : List Char} (h : Spaced words line)
    (hwords : ∀ w ∈ words, IsWord w) :
    ∃ c cs, line = c :: cs ∧ Lexeme.isIndentation c = false ∧ c ≠ '\n' ∧ c ≠ '\r' ∧ c ≠ '#' := by
  cases h with
  | last word n | cons word n h =>
    obtain ⟨c, cs, hcs, hc⟩ := exists_head_of_isWord (hwords word List.mem_cons_self)
    exact ⟨c, _, congrArg (· ++ _) hcs, hc⟩

theorem apart_spaces {rest : List Char} (n : Nat) (hrest : Apart rest) :
    Apart (List.replicate n ' ' ++ rest) := by
  cases n with
  | zero => exact hrest
  | succ n =>
    intro c hc
    cases hc
    exact .inl rfl

theorem exists_run_word_spaces (file : String) {word : String} {rest : List Char}
    (hs : s.fresh = false)
    (hword : IsWord word) (n : Nat) (hapart : Apart (List.replicate n ' ' ++ rest))
    (hrest : rest.head?.any Lexeme.isIndentation = false) (hquotes : Unquoted rest) :
    ∃ t : Scan, run file s (word.toList ++ (List.replicate n ' ' ++ rest)) = run file t rest ∧
      t.fresh = false ∧ t.widths = s.widths ∧ t.atLineEnd = false ∧
      t.faces = s.faces ++ [spelled word] := by
  have hspaces : Unquoted (List.replicate n ' ' ++ rest) :=
    List.forall_mem_append.2 ⟨fun c hc => by rw [(List.mem_replicate.1 hc).2]; rfl, hquotes⟩
  obtain ⟨length, hrun⟩ := exists_run_word file hs hword hapart hspaces
  let t := (s.push file (Kind.ofSpelling word) word length).advance word.toList
  refine ⟨t.advance (List.replicate n ' '), hrun.trans (run_spaces (s := t) hs n hrest hquotes), hs,
    rfl, ?_, faces_push s _ _ _⟩
  have hkind : Kind.ofSpelling word ≠ .newline := fun hkind => by
    have hplain := (isPlain_ofSpelling word).1
    rw [hkind] at hplain
    cases hplain
  exact beq_eq_false_iff_ne.2 hkind

theorem exists_run_spaced (file : String) {words : List String} {line ending : List Char}
    (h : Spaced words line)
    (hwords : ∀ w ∈ words, IsWord w) (hending : ending = [] ∨ ending = ['\n'])
    (hs : s.fresh = false) :
    ∃ t, run file s (line ++ ending) = .ok t ∧ t.widths = s.widths ∧
      (t.endLine file 0).faces = s.faces ++ (words.map spelled ++ [(.newline, "\n")]) := by
  obtain ⟨hquotes, hapart, hhead⟩ : Unquoted ending ∧ Apart ending ∧
      ending.head?.any Lexeme.isIndentation = false := by
    obtain rfl | rfl := hending
    · exact ⟨nofun, nofun, rfl⟩
    · refine ⟨List.forall_mem_singleton.2 rfl, fun c hc => ?_, rfl⟩
      cases hc
      exact .inr rfl
  induction h generalizing s with
  | last word n =>
    obtain ⟨t, hrun, hfresh, hwidths, hlast, hfaces⟩ := exists_run_word_spaces file hs
      (hwords word List.mem_cons_self) n (apart_spaces n hapart) hhead hquotes
    obtain ⟨u, hend, huwidths, hufaces⟩ := exists_run_end file hfresh hlast hending
    rw [List.append_assoc]
    refine ⟨u, hrun.trans hend, huwidths.trans hwidths, ?_⟩
    rw [hufaces, hfaces, List.append_assoc]
    rfl
  | @cons words line word n h ih =>
    obtain ⟨hword, hwords⟩ := List.forall_mem_cons.1 hwords
    have hlineHead : (line ++ ending).head?.any Lexeme.isIndentation = false := by
      obtain ⟨c, cs, rfl, hc, _⟩ := exists_head_of_spaced h hwords
      exact hc
    have hlineQuotes : Unquoted (line ++ ending) :=
      List.forall_mem_append.2 ⟨unquoted_of_spaced h hwords, hquotes⟩
    have hspaces : Apart (List.replicate (n + 1) ' ' ++ (line ++ ending)) := fun c hc => by
      cases hc
      exact .inl rfl
    obtain ⟨t, hrun, hfresh, hwidths, _, hfaces⟩ := exists_run_word_spaces file hs
      hword (n + 1) hspaces hlineHead hlineQuotes
    obtain ⟨u, hend, huwidths, hufaces⟩ := ih hwords hfresh
    rw [List.append_assoc, List.append_assoc]
    refine ⟨u, hrun.trans hend, huwidths.trans hwidths, ?_⟩
    rw [hufaces, hfaces, List.append_assoc]
    rfl

theorem faces_finish (file : String) (h : s.widths = []) :
    (s.finish file).map face = (s.endLine file 0).faces ++ [(.eof, "EOF")] := by
  have hnone : (s.endLine file 0).widths = [] := (widths_endLine s 0).trans h
  unfold finish
  simp only [hnone, List.length_nil, dedent]
  exact faces_push _ _ _ _

end Scan

/-- The tokens of a line of words are those of the words, a line end and the end mark. -/
theorem exists_tokenize_spaced (file : String) {words : List String} {line ending : List Char}
    (h : Spaced words line) (hwords : ∀ w ∈ words, IsWord w)
    (hending : ending = [] ∨ ending = ['\n']) :
    ∃ tokens, tokenize (String.ofList (line ++ ending)) file = .ok tokens ∧
      tokens.map face = words.map spelled ++ [(.newline, "\n"), (.eof, "EOF")] := by
  obtain ⟨c, cs, hline, hindent, hnewline, hreturn, hcomment⟩ := Scan.exists_head_of_spaced h hwords
  have hstart : Scan.run file {} (line ++ ending) = Scan.run file { fresh := false } (line ++ ending) := by
    rw [hline]
    exact Scan.run_start hindent hnewline hreturn hcomment
  obtain ⟨t, hrun, hwidths, hfaces⟩ :=
    Scan.exists_run_spaced file (s := { fresh := false }) h hwords hending rfl
  refine ⟨t.finish file, ?_, ?_⟩
  · unfold tokenize
    rw [String.toList_ofList, hstart, hrun]
    rfl
  · rw [Scan.faces_finish file hwidths, hfaces, List.append_assoc, List.append_assoc]
    rfl

end Credence.Token

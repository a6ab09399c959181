import Credence.Proofs.Cost
import Mathlib.Data.List.Chain

namespace Credence.Token

open Text

namespace Kind

def isLayout : Kind → Bool
  | newline | indent | dedent => true
  | _ => false

/-- The number of open brackets after a token, from the number before it. A bracket that closes none
leaves none open. -/
def depthAfter (depth : Nat) : Kind → Nat
  | openParen | openBracket | openCurly => depth + 1
  | closeParen | closeBracket | closeCurly => depth - 1
  | _ => depth

theorem depthAfter_eq (depth : Nat) (kind : Kind) :
    kind.depthAfter depth =
      if kind.opens then depth + 1 else if kind.closes then depth - 1 else depth := by
  cases kind <;> rfl

/-- A kind of token that neither lays out lines and blocks nor ends the text. -/
def IsPlain (kind : Kind) : Prop :=
  kind.isLayout = false ∧ kind ≠ eof

theorem isPlain_ofWord (word : String) : (ofWord word).IsPlain := by
  unfold ofWord
  split <;> exact ⟨rfl, nofun⟩

theorem isPlain_mark {cs : List Char} {kind : Kind} {n : Nat}
    (h : Lexeme.mark? cs = some (.mark kind, n)) : kind.IsPlain := by
  have hmarks : ∀ m ∈ marks, m.2.isLayout = false ∧ m.2 ≠ eof := by decide
  obtain ⟨m, hfind, hm⟩ := Option.map_eq_some_iff.1 h
  cases hm
  exact hmarks m (List.mem_of_find?_eq_some hfind)

theorem isPlain_literal (tag : Nat) (triple : Bool) (text : List Char) :
    (Scan.literal tag triple text).1.IsPlain := by
  unfold Scan.literal
  simp only
  split
  · exact ⟨rfl, nofun⟩
  · split <;> exact ⟨rfl, nofun⟩

end Kind

/-- The number of brackets that are open after a list of tokens. -/
def openBrackets (tokens : List Token) : Nat :=
  tokens.foldl (fun depth t => t.kind.depthAfter depth) 0

def countOf (kind : Kind) (tokens : List Token) : Nat :=
  tokens.countP (·.kind == kind)

theorem openBrackets_concat (tokens : List Token) (t : Token) :
    openBrackets (tokens ++ [t]) = t.kind.depthAfter (openBrackets tokens) :=
  List.foldl_concat ..

theorem countOf_concat (kind : Kind) (tokens : List Token) (t : Token) :
    countOf kind (tokens ++ [t]) = countOf kind tokens + if t.kind = kind then 1 else 0 := by
  unfold countOf
  rw [List.countP_append, List.countP_singleton]
  simp only [beq_iff_eq]

/-- No line ends twice in a row. -/
def LinesApart (tokens : List Token) : Prop :=
  tokens.IsChain fun a b => ¬(a.kind = .newline ∧ b.kind = .newline)

/-- Every block that ends has begun before. -/
def Nested (tokens : List Token) : Prop :=
  ∀ before, before <+: tokens → countOf .dedent before ≤ countOf .indent before

/-- Lines and blocks begin and end only where no bracket is open. -/
def Sheltered (tokens : List Token) : Prop :=
  ∀ before t after, tokens = before ++ t :: after → t.kind.isLayout = true → openBrackets before = 0

structure Laid (tokens : List Token) (blocks : Nat) : Prop where
  unended : ∀ t ∈ tokens, t.kind ≠ .eof
  lines : LinesApart tokens
  nested : Nested tokens
  balance : countOf .indent tokens = countOf .dedent tokens + blocks

theorem LinesApart.concat {tokens : List Token} {t : Token} (h : LinesApart tokens)
    (ht : t.kind = .newline → ∀ last ∈ tokens.getLast?, last.kind ≠ .newline) :
    LinesApart (tokens ++ [t]) := by
  refine List.isChain_append.2 ⟨h, List.isChain_singleton _, fun last hlast u hu => ?_⟩
  cases Option.mem_some_iff.1 hu
  intro hboth
  exact ht hboth.2 last hlast hboth.1

theorem Nested.concat {tokens : List Token} {t : Token} (h : Nested tokens)
    (ht : countOf .dedent (tokens ++ [t]) ≤ countOf .indent (tokens ++ [t])) :
    Nested (tokens ++ [t]) := by
  intro before hbefore
  obtain rfl | hbefore := List.prefix_concat_iff.1 hbefore
  · exact ht
  · exact h before hbefore

theorem Sheltered.nil : Sheltered [] := by
  intro before t after h _
  cases before <;> cases h

theorem Sheltered.concat {tokens : List Token} {t : Token} (h : Sheltered tokens)
    (ht : t.kind.isLayout = true → openBrackets tokens = 0) : Sheltered (tokens ++ [t]) := by
  intro before u after heq hu
  obtain rfl | ⟨after, last, rfl⟩ := List.eq_nil_or_concat after
  · obtain ⟨rfl, hlast⟩ := List.append_inj' heq rfl
    cases hlast
    exact ht hu
  · rw [List.concat_eq_append, ← List.cons_append, ← List.append_assoc] at heq
    exact h before u after (List.append_inj' heq rfl).1 hu

namespace Laid

variable {tokens : List Token} {t : Token} {n : Nat}

theorem nil : Laid [] 0 := by
  refine ⟨fun _ h => absurd h List.not_mem_nil, List.isChain_nil, fun before h => ?_, rfl⟩
  rw [List.prefix_nil.1 h]
  exact Nat.le_refl _

theorem concat {m : Nat} (h : Laid tokens n) (hend : t.kind ≠ .eof)
    (hline : t.kind = .newline → ∀ last ∈ tokens.getLast?, last.kind ≠ .newline)
    (hblocks : m + (if t.kind = .dedent then 1 else 0) = n + if t.kind = .indent then 1 else 0) :
    Laid (tokens ++ [t]) m := by
  have hbalance : countOf .indent (tokens ++ [t]) = countOf .dedent (tokens ++ [t]) + m := by
    rw [countOf_concat, countOf_concat, h.balance]
    omega
  refine ⟨fun u hu => ?_, h.lines.concat hline, h.nested.concat ?_, hbalance⟩
  · obtain hu | hu := List.mem_append.1 hu
    · exact h.unended u hu
    · cases List.mem_singleton.1 hu
      exact hend
  · rw [hbalance]
    exact Nat.le_add_right _ _

theorem plain (h : Laid tokens n) (ht : t.kind.IsPlain) : Laid (tokens ++ [t]) n := by
  obtain ⟨hlayout, hend⟩ := ht
  have hother {kind : Kind} (hkind : kind.isLayout = true) : t.kind ≠ kind := by
    rintro rfl
    rw [hlayout] at hkind
    cases hkind
  refine h.concat hend (fun hline => absurd hline (hother rfl)) ?_
  rw [if_neg (hother rfl), if_neg (hother rfl)]

theorem newline (h : Laid tokens n) (ht : t.kind = .newline)
    (hline : ∀ last ∈ tokens.getLast?, last.kind ≠ .newline) : Laid (tokens ++ [t]) n :=
  h.concat (by rw [ht]; exact nofun) (fun _ => hline) (by rw [ht]; rfl)

theorem indent (h : Laid tokens n) (ht : t.kind = .indent) : Laid (tokens ++ [t]) (n + 1) := by
  refine h.concat ?_ (fun hline => ?_) ?_
  · rw [ht]
    exact nofun
  · rw [ht] at hline
    cases hline
  · rw [ht]
    rfl

theorem dedent (h : Laid tokens (n + 1)) (ht : t.kind = .dedent) : Laid (tokens ++ [t]) n := by
  refine h.concat ?_ (fun hline => ?_) ?_
  · rw [ht]
    exact nofun
  · rw [ht] at hline
    cases hline
  · rw [ht]
    rfl

end Laid

namespace Scan

variable {file : String} {s t : Scan}

def inOrder (s : Scan) : List Token :=
  s.tokens.reverse

theorem exists_inOrder_push (file : String) (s : Scan) (kind : Kind) (value : String) (length : Nat) :
    ∃ t, (s.push file kind value length).inOrder = s.inOrder ++ [t] ∧ t.kind = kind ∧
      t.span.start.offset = s.place.offset :=
  ⟨_, List.reverse_cons, rfl, rfl⟩

theorem getLast?_inOrder_of_not_atLineEnd (h : s.atLineEnd = false) :
    ∀ last ∈ s.inOrder.getLast?, last.kind ≠ .newline := by
  intro last hlast
  unfold inOrder at hlast
  rw [List.getLast?_reverse] at hlast
  unfold atLineEnd at h
  cases htokens : s.tokens with
  | nil =>
    rw [htokens] at h
    cases h
  | cons u us =>
    rw [htokens] at h hlast
    cases hlast
    exact beq_eq_false_iff_ne.1 h

theorem laid_endLine {n : Nat} (h : Laid s.inOrder n) (length : Nat) :
    Laid (s.endLine file length).inOrder n := by
  unfold endLine
  split
  · exact h
  · rename_i hline
    obtain ⟨t, ht, hkind, _⟩ := exists_inOrder_push file s .newline "\n" length
    rw [ht]
    exact h.newline hkind (getLast?_inOrder_of_not_atLineEnd (Bool.eq_false_iff.2 hline))

theorem widths_endLine (s : Scan) (length : Nat) : (s.endLine file length).widths = s.widths := by
  unfold endLine
  split <;> rfl

theorem depth_endLine (s : Scan) (length : Nat) : (s.endLine file length).depth = s.depth := by
  unfold endLine
  split <;> rfl

theorem depth_dedent (s : Scan) (n : Nat) : (s.dedent file n).depth = s.depth := by
  induction n generalizing s with
  | zero => rfl
  | succ n ih => exact ih _

theorem length_widths_dedent (s : Scan) (n : Nat) :
    (s.dedent file n).widths.length = s.widths.length - n := by
  induction n generalizing s with
  | zero => rfl
  | succ n ih =>
    refine (ih _).trans ?_
    change (s.widths.drop 1).length - n = _
    rw [List.length_drop]
    omega

theorem laid_dedent {n m : Nat} (h : Laid s.inOrder (m + n)) :
    Laid (s.dedent file n).inOrder m := by
  induction n generalizing s with
  | zero => exact h
  | succ n ih =>
    obtain ⟨t, ht, hkind, _⟩ :=
      exists_inOrder_push file { s with widths := s.widths.drop 1 } .dedent "" 0
    refine ih ?_
    rw [ht]
    exact Laid.dedent h hkind

theorem sheltered_dedent (file : String) (h : Sheltered s.inOrder) (hs : openBrackets s.inOrder = 0) (n : Nat) :
    Sheltered (s.dedent file n).inOrder ∧ openBrackets (s.dedent file n).inOrder = 0 := by
  induction n generalizing s with
  | zero => exact ⟨h, hs⟩
  | succ n ih =>
    obtain ⟨t, ht, hkind, _⟩ :=
      exists_inOrder_push file { s with widths := s.widths.drop 1 } .dedent "" 0
    refine ih ?_ ?_
    · rw [ht]
      exact h.concat fun _ => hs
    · rw [ht, openBrackets_concat, hkind]
      exact hs

/-- What every scan keeps: its open blocks and brackets are those of its tokens, and a line begins where
no bracket is open. -/
structure Orderly (s : Scan) : Prop where
  laid : Laid s.inOrder s.widths.length
  sheltered : Sheltered s.inOrder
  depth : s.depth = openBrackets s.inOrder
  fresh : s.fresh = true → s.depth = 0

namespace Orderly

theorem start : Orderly {} :=
  ⟨Laid.nil, Sheltered.nil, rfl, fun _ => rfl⟩

theorem advance (h : s.Orderly) (text : List Char) : (s.advance text).Orderly :=
  ⟨h.laid, h.sheltered, h.depth, h.fresh⟩

theorem plain (h : s.Orderly) (hs : s.fresh = false) {kind : Kind} (hkind : kind.IsPlain)
    (value : String) (length : Nat) : (s.push file kind value length).Orderly := by
  obtain ⟨t, ht, rfl, _⟩ := exists_inOrder_push file s kind value length
  refine ⟨?_, ?_, ?_, fun hfresh => ?_⟩
  · rw [ht]
    exact h.laid.plain hkind
  · rw [ht]
    exact h.sheltered.concat fun hlayout => by rw [hkind.1] at hlayout; cases hlayout
  · rw [ht, openBrackets_concat, ← h.depth, Kind.depthAfter_eq]
    rfl
  · have hfresh : s.fresh = true := hfresh
    rw [hs] at hfresh
    cases hfresh

theorem endLine (h : s.Orderly) (hs : s.depth = 0) (length : Nat) :
    ({ s.endLine file length with fresh := true }).Orderly := by
  have hdepth : (s.endLine file length).depth = openBrackets (s.endLine file length).inOrder ∧
      Sheltered (s.endLine file length).inOrder := by
    rw [depth_endLine]
    unfold Scan.endLine
    split
    · exact ⟨h.depth, h.sheltered⟩
    · obtain ⟨t, ht, hkind, _⟩ := exists_inOrder_push file s .newline "\n" length
      rw [ht, openBrackets_concat, hkind]
      exact ⟨h.depth, h.sheltered.concat fun _ => h.depth.symm.trans hs⟩
  refine ⟨?_, hdepth.2, hdepth.1, fun _ => (depth_endLine s length).trans hs⟩
  change Laid (s.endLine file length).inOrder (s.endLine file length).widths.length
  rw [widths_endLine]
  exact laid_endLine h.laid length

theorem indentTo (h : s.Orderly) (hs : s.fresh = true) {w : Nat} (ht : s.indentTo file w = .ok t) :
    ({ t with fresh := false }).Orderly := by
  have hbrackets : openBrackets s.inOrder = 0 := h.depth.symm.trans (h.fresh hs)
  unfold Scan.indentTo at ht
  split at ht
  · cases ht
    obtain ⟨u, hu, hkind, _⟩ :=
      exists_inOrder_push file { s with widths := w :: s.widths } .indent "" 0
    refine ⟨?_, ?_, ?_, nofun⟩
    · change Laid (Scan.inOrder (Scan.push file _ _ _ _)) (s.widths.length + 1)
      rw [hu]
      exact Laid.indent h.laid hkind
    · change Sheltered (Scan.inOrder (Scan.push file _ _ _ _))
      rw [hu]
      exact h.sheltered.concat fun _ => hbrackets
    · change s.depth = openBrackets (Scan.inOrder (Scan.push file _ _ _ _))
      rw [hu, openBrackets_concat, hkind]
      exact h.depth
  · simp only at ht
    split at ht
    · cases ht
      have hle : (s.widths.takeWhile (w < ·)).length ≤ s.widths.length :=
        (List.takeWhile_sublist _).length_le
      obtain ⟨hsheltered, hnone⟩ := sheltered_dedent file h.sheltered hbrackets
        (s.widths.takeWhile (w < ·)).length
      refine ⟨?_, hsheltered, ?_, nofun⟩
      · change Laid (s.dedent file _).inOrder (s.dedent file _).widths.length
        rw [length_widths_dedent]
        refine laid_dedent ?_
        rw [Nat.sub_add_cancel hle]
        exact h.laid
      · change (s.dedent file _).depth = openBrackets (s.dedent file _).inOrder
        rw [depth_dedent, hnone]
        exact h.fresh hs
    · cases ht

theorem takeLexeme (h : s.Orderly) (hs : s.fresh = false) {cs text : List Char} {lexeme : Lexeme}
    {n : Nat} (hlexeme : Lexeme.ofText? cs = some (lexeme, n))
    (ht : s.takeLexeme file lexeme text = .ok t) : t.Orderly := by
  unfold Scan.takeLexeme at ht
  cases lexeme with
  | literal tag triple =>
    cases ht
    exact (h.plain hs (Kind.isPlain_literal tag triple text) _ _).advance text
  | openLiteral => cases ht
  | word =>
    cases ht
    exact (h.plain hs (Kind.isPlain_ofWord _) _ _).advance text
  | numeral =>
    cases ht
    have hkind : Kind.IsPlain .number := ⟨rfl, nofun⟩
    exact (h.plain hs hkind _ _).advance text
  | lineEnd =>
    simp only at ht
    split at ht
    · rename_i hdepth
      cases ht
      exact (h.endLine hdepth _).advance text
    · cases ht
      exact h.advance text
  | trivia =>
    cases ht
    exact h.advance text
  | mark kind =>
    cases ht
    exact (h.plain hs (Kind.isPlain_mark (Lexeme.rule?_of_ofText? hlexeme)) _ _).advance text

theorem run {cs : List Char} (h : s.Orderly) (ht : run file s cs = .ok t) : t.Orderly := by
  refine run_keeps (P := fun s _ => s.Orderly) (fun _ text _ _ h => h.advance text) ?_ ?_ h ht
  · intro s u text rest w hfresh h hindent
    exact (h.advance text).indentTo hfresh hindent
  · intro s u text rest lexeme n hfresh _ h hlexeme htake
    exact h.takeLexeme hfresh hlexeme htake

end Orderly

end Scan

/-- What is written after the text is used up: the end of a line that is still open, the ends of the
blocks that are, and the end mark. -/
structure IsTail (tail : List Token) (offset blocks : Nat) : Prop where
  kinds : ∃ line, tail.map (·.kind) = line ++ (List.replicate blocks .dedent ++ [.eof]) ∧
    (line = [] ∨ line = [.newline])
  place : ∀ t ∈ tail, t.span.start.offset = offset

namespace Scan

theorem exists_inOrder_endLine (file : String) (s : Scan) (length : Nat) :
    ∃ line, (s.endLine file length).inOrder = s.inOrder ++ line ∧
      (line.map (·.kind) = [] ∨ line.map (·.kind) = [.newline]) ∧
      ∀ t ∈ line, t.span.start.offset = s.place.offset := by
  unfold endLine
  split
  · exact ⟨[], (List.append_nil _).symm, .inl rfl, fun _ h => absurd h List.not_mem_nil⟩
  · obtain ⟨t, ht, hkind, hplace⟩ := exists_inOrder_push file s .newline "\n" length
    refine ⟨[t], ht, .inr (congrArg (fun kind => [kind]) hkind), fun u hu => ?_⟩
    cases List.mem_singleton.1 hu
    exact hplace

theorem exists_inOrder_dedent (file : String) (s : Scan) (n : Nat) :
    ∃ ends, (s.dedent file n).inOrder = s.inOrder ++ ends ∧
      ends.map (·.kind) = List.replicate n .dedent ∧
      ∀ t ∈ ends, t.span.start.offset = s.place.offset := by
  induction n generalizing s with
  | zero => exact ⟨[], (List.append_nil _).symm, rfl, fun _ h => absurd h List.not_mem_nil⟩
  | succ n ih =>
    obtain ⟨t, ht, hkind, hplace⟩ :=
      exists_inOrder_push file { s with widths := s.widths.drop 1 } .dedent "" 0
    obtain ⟨ends, hends, hkinds, hplaces⟩ :=
      ih (Scan.push file { s with widths := s.widths.drop 1 } .dedent "" 0)
    refine ⟨t :: ends, ?_, ?_, fun u hu => ?_⟩
    · refine hends.trans ?_
      rw [ht, List.append_assoc]
      rfl
    · rw [List.map_cons, hkinds, hkind, List.replicate_succ]
    · obtain rfl | hu := List.mem_cons.1 hu
      · exact hplace
      · exact hplaces u hu

theorem exists_finish (file : String) {s : Scan} (h : Laid s.inOrder s.widths.length) :
    ∃ tail mark, s.finish file = s.inOrder ++ tail ++ [mark] ∧ mark.kind = .eof ∧
      Laid (s.inOrder ++ tail) 0 ∧ IsTail (tail ++ [mark]) s.place.offset s.widths.length := by
  obtain ⟨line, hline, hlineKinds, hlinePlaces⟩ := exists_inOrder_endLine file s 0
  obtain ⟨ends, hends, hendsKinds, hendsPlaces⟩ :=
    exists_inOrder_dedent file (s.endLine file 0) s.widths.length
  obtain ⟨mark, hmark, hmarkKind, hmarkPlace⟩ := exists_inOrder_push file
    ((s.endLine file 0).dedent file s.widths.length) .eof "EOF" 0
  rw [place_endLine] at hendsPlaces
  rw [place_dedent, place_endLine] at hmarkPlace
  rw [hline, List.append_assoc] at hends
  refine ⟨line ++ ends, mark, ?_, hmarkKind, ?_, ⟨line.map (·.kind), ?_, hlineKinds⟩, ?_⟩
  · unfold finish
    simp only [widths_endLine]
    rw [← hends]
    exact hmark
  · rw [← hends]
    refine laid_dedent ?_
    rw [Nat.zero_add]
    exact laid_endLine h 0
  · rw [List.map_append, List.map_append, hendsKinds, List.append_assoc]
    exact congrArg (fun kind => _ ++ (_ ++ [kind])) hmarkKind
  · intro t ht
    obtain ht | ht := List.mem_append.1 ht
    · obtain ht | ht := List.mem_append.1 ht
      · exact hlinePlaces t ht
      · exact hendsPlaces t ht
    · cases List.mem_singleton.1 ht
      exact hmarkPlace

end Scan

theorem Scan.exists_run_of_tokenize {source file : String} {tokens : List Token}
    (h : tokenize source file = .ok tokens) :
    ∃ s, run file {} source.toList = .ok s ∧ s.finish file = tokens := by
  unfold tokenize at h
  cases hrun : run file {} source.toList with
  | error fault =>
    rw [hrun] at h
    cases h
  | ok s =>
    rw [hrun] at h
    exact ⟨s, rfl, Except.ok.inj h⟩

/-- The tokens of a text are laid out well. One end mark ends them, every block that ends has begun and
every block that begins ends, no line ends twice in a row, and apart from what is written when the text
is used up, lines and blocks begin and end where no bracket is open. -/
theorem layout_of_tokenize {source file : String} {tokens : List Token}
    (h : tokenize source file = .ok tokens) :
    (∃ body mark, tokens = body ++ [mark] ∧ mark.kind = .eof ∧ ∀ t ∈ body, t.kind ≠ .eof) ∧
      Nested tokens ∧ countOf .indent tokens = countOf .dedent tokens ∧ LinesApart tokens ∧
      ∃ s tail, Scan.run file {} source.toList = .ok s ∧ tokens = s.inOrder ++ tail ∧
        Sheltered s.inOrder ∧ IsTail tail (byteLength source.toList) s.widths.length := by
  obtain ⟨s, hrun, rfl⟩ := Scan.exists_run_of_tokenize h
  have horderly := Scan.Orderly.start.run hrun
  obtain ⟨tail, mark, hfinish, hmark, hlaid, htail⟩ := Scan.exists_finish file horderly.laid
  have hcounts : countOf .indent (s.finish file) = countOf .dedent (s.finish file) := by
    rw [hfinish, countOf_concat, countOf_concat, hmark]
    exact hlaid.balance
  have hplace : s.place.offset = byteLength source.toList := by
    rw [Scan.place_run hrun, Place.offset_advance]
    exact Nat.zero_add _
  refine ⟨⟨_, mark, hfinish, hmark, hlaid.unended⟩, ?_, hcounts, ?_, s, tail ++ [mark], hrun, ?_,
    horderly.sheltered, hplace ▸ htail⟩
  · rw [hfinish] at hcounts ⊢
    exact hlaid.nested.concat (Nat.le_of_eq hcounts.symm)
  · rw [hfinish]
    exact hlaid.lines.concat fun hnewline => by rw [hmark] at hnewline; cases hnewline
  · rw [hfinish, List.append_assoc]

/-- A block is open when its text ends, and so is a bracket in it. Only what ends the text is written
inside the bracket. -/
theorem layout_of_open_text :
    ∃ tokens, tokenize "if a:\n (\n" "main.py" = .ok tokens ∧
      tokens.map (·.kind) = [.kwIf, .identifier, .colon, .newline, .indent, .openParen] ++
        [.newline, .dedent, .eof] ∧
      (∃ body mark, tokens = body ++ [mark] ∧ mark.kind = .eof ∧ ∀ t ∈ body, t.kind ≠ .eof) ∧
      Nested tokens ∧ countOf .indent tokens = countOf .dedent tokens ∧ LinesApart tokens ∧
      ∃ s tail, Scan.run "main.py" {} "if a:\n (\n".toList = .ok s ∧ tokens = s.inOrder ++ tail ∧
        Sheltered s.inOrder ∧ IsTail tail (byteLength "if a:\n (\n".toList) s.widths.length := by
  have hkinds : (tokenize "if a:\n (\n" "main.py").toOption.map (fun ts => ts.map (·.kind)) =
      some [.kwIf, .identifier, .colon, .newline, .indent, .openParen, .newline, .dedent, .eof] := by
    decide +kernel
  cases htokens : tokenize "if a:\n (\n" "main.py" with
  | error fault =>
    rw [htokens] at hkinds
    cases hkinds
  | ok tokens =>
    rw [htokens] at hkinds
    exact ⟨tokens, rfl, Option.some.inj hkinds, layout_of_tokenize htokens⟩

end Credence.Token

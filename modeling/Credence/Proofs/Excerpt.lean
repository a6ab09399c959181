import Credence.Proofs.Tiling
import Credence.Proofs.Totality

namespace Credence

open Text

/-- A line, and the text after it. It has its line end, or nothing comes after it. -/
inductive IsLine : List Char → List Char → Prop
  | ended {line after : List Char} (h : '\n' ∉ line) : IsLine (line ++ ['\n']) after
  | last {line : List Char} (h : '\n' ∉ line) : IsLine line []

theorem Text.byteLength_pos {cs : List Char} (h : cs ≠ []) : 0 < byteLength cs := by
  cases cs with
  | nil => exact absurd rfl h
  | cons c cs => exact Nat.add_pos_left c.utf8Size_pos _

theorem linesOf_ne_nil {cs : List Char} (h : cs ≠ []) : linesOf cs ≠ [] := by
  intro hnil
  refine h ?_
  rw [← flatten_linesOf cs, hnil]
  rfl

theorem linesOf_append {head : List Char} (hhead : ∀ c ∈ head.getLast?, c = '\n') (rest : List Char) :
    linesOf (head ++ rest) = linesOf head ++ linesOf rest := by
  induction head with
  | nil => rfl
  | cons c head ih =>
    obtain rfl | hne := eq_or_ne head []
    · rw [hhead c rfl]
      rfl
    · have hsplit := ih fun d hd => hhead d (by rwa [List.getLast?_cons_of_ne_nil hne])
      rw [List.cons_append, linesOf, linesOf, hsplit]
      split
      · rfl
      · cases hlines : linesOf head with
        | nil => exact absurd hlines (linesOf_ne_nil hne)
        | cons line lines => rfl

theorem linesOf_of_not_mem {line : List Char} (h : '\n' ∉ line) (hne : line ≠ []) :
    linesOf line = [line] := by
  induction line with
  | nil => exact absurd rfl hne
  | cons c line ih =>
    obtain ⟨hc, hline⟩ := List.ne_and_not_mem_of_not_mem_cons h
    rw [linesOf, if_neg hc.symm]
    obtain rfl | hne := eq_or_ne line []
    · rfl
    · rw [ih hline hne]

theorem linesOf_concat {line : List Char} (h : '\n' ∉ line) :
    linesOf (line ++ ['\n']) = [line ++ ['\n']] := by
  induction line with
  | nil => rfl
  | cons c line ih =>
    obtain ⟨hc, hline⟩ := List.ne_and_not_mem_of_not_mem_cons h
    rw [List.cons_append, linesOf, if_neg hc.symm, ih hline]

/-- A text up to the end of a line has as many lines as line ends. -/
theorem length_linesOf {head : List Char} (hhead : ∀ c ∈ head.getLast?, c = '\n') :
    (linesOf head).length = head.count '\n' := by
  induction head with
  | nil => rfl
  | cons c head ih =>
    obtain rfl | hne := eq_or_ne head []
    · rw [hhead c rfl]
      rfl
    · have hlength := ih fun d hd => hhead d (by rwa [List.getLast?_cons_of_ne_nil hne])
      rw [linesOf, List.count_cons, ← hlength]
      by_cases hc : c = '\n'
      · rw [if_pos hc, if_pos (beq_iff_eq.2 hc)]
        rfl
      · rw [if_neg hc, if_neg (fun h => hc (eq_of_beq h))]
        cases hlines : linesOf head with
        | nil => exact absurd hlines (linesOf_ne_nil hne)
        | cons line lines => rfl

theorem linesOf_eq_cons {line after : List Char} (h : IsLine line after) (hne : line ≠ []) :
    ∃ lines, linesOf (line ++ after) = line :: lines := by
  cases h with
  | @ended line _ h =>
    refine ⟨linesOf after, ?_⟩
    rw [linesOf_append (fun c hc => ?_), linesOf_concat h]
    · rfl
    · rw [List.getLast?_concat] at hc
      exact (Option.some.inj hc).symm
  | last h =>
    rw [List.append_nil]
    exact ⟨[], linesOf_of_not_mem h hne⟩

theorem holdingLine?_append {offset : Nat} (number start : Nat) {lines : List (List Char)}
    (rest : List (List Char)) (h : start + byteLength lines.flatten ≤ offset) :
    holdingLine? offset number start (lines ++ rest) =
      holdingLine? offset (number + lines.length) (start + byteLength lines.flatten) rest := by
  induction lines generalizing number start with
  | nil => rfl
  | cons line lines ih =>
    rw [List.flatten_cons, byteLength_append, ← Nat.add_assoc] at h ⊢
    rw [List.cons_append, holdingLine?, if_neg (by omega), ih _ _ h, List.length_cons,
      Nat.add_right_comm, Nat.add_assoc number]

/-- The line of a place is found by its number, with the bytes of the line that come before the place. -/
theorem lineAt?_of_isLine {source head line after : List Char} {column : Nat}
    (hsource : source = head ++ (line ++ after)) (hhead : ∀ c ∈ head.getLast?, c = '\n')
    (hline : IsLine line after) (hcolumn : column < byteLength line) :
    lineAt? source (byteLength head + column) = some ⟨head.count '\n' + 1, line, column⟩ := by
  have hne : line ≠ [] := fun hnil => by
    rw [hnil] at hcolumn
    exact absurd hcolumn (Nat.not_lt_zero _)
  obtain ⟨lines, hlines⟩ := linesOf_eq_cons hline hne
  have hlength : byteLength source = byteLength head + (byteLength line + byteLength after) := by
    rw [hsource, byteLength_append, byteLength_append]
  have hholds : holdingLine? (byteLength head + column) 1 0 (linesOf source) =
      some ⟨head.count '\n' + 1, line, column⟩ := by
    rw [hsource, linesOf_append hhead, hlines,
      holdingLine?_append 1 0 _ (by rw [flatten_linesOf]; omega), length_linesOf hhead, flatten_linesOf,
      Nat.zero_add, Nat.add_comm 1, holdingLine?, if_pos (by omega), Nat.add_sub_cancel_left]
  unfold lineAt?
  rw [if_neg (by omega)]
  simp only [hholds]

theorem exists_lineStart (before : List Char) :
    ∃ head start, before = head ++ start ∧ (∀ c ∈ head.getLast?, c = '\n') ∧ '\n' ∉ start := by
  refine ⟨before.rdropWhile (· ≠ '\n'), before.rtakeWhile (· ≠ '\n'),
    List.rdropWhile_append_rtakeWhile.symm, fun c hc => ?_, fun hmem => ?_⟩
  · obtain ⟨hne, rfl⟩ := List.mem_getLast?_eq_getLast hc
    simpa using List.rdropWhile_last_not (· ≠ '\n') before hne
  · simpa using List.mem_rtakeWhile_imp hmem

theorem Position.after_append (file : String) {head start : List Char}
    (hhead : ∀ c ∈ head.getLast?, c = '\n') (hstart : '\n' ∉ start) :
    Position.after file (head ++ start) =
      ⟨byteLength head + byteLength start, head.count '\n' + 1, byteLength start, file⟩ := by
  have hnone : head.rtakeWhile (· ≠ '\n') = [] := List.rtakeWhile_eq_nil_iff.2 fun hne => by
    simpa using hhead _ (List.getLast?_eq_some_getLast hne)
  have hall : ∀ c ∈ start.reverse, decide (c ≠ '\n') = true := fun c hc =>
    decide_eq_true fun heq => hstart (heq ▸ List.mem_reverse.1 hc)
  have hline : (head ++ start).rtakeWhile (· ≠ '\n') = start := by
    unfold List.rtakeWhile at hnone ⊢
    rw [List.reverse_append, List.takeWhile_append_of_pos hall, List.reverse_append, hnone,
      List.reverse_reverse, List.nil_append]
  unfold Position.after
  rw [hline, byteLength_append, List.count_append, List.count_eq_zero_of_not_mem hstart]

theorem isLine_around {start : List Char} (hstart : '\n' ∉ start) (after : List Char) :
    ∃ line tail, start ++ after = line ++ tail ∧ IsLine line tail ∧
      (after ≠ [] → byteLength start < byteLength line) := by
  have hcut := List.takeWhile_append_dropWhile (p := (· != '\n')) (l := after)
  have hinner : '\n' ∉ start ++ after.takeWhile (· != '\n') := fun hmem =>
    (List.mem_append.1 hmem).elim hstart (Token.newline_not_mem_takeWhile after)
  obtain hnil | ⟨tail, htail⟩ := (Token.endsHere_dropWhile after).cases
  · rw [hnil, List.append_nil] at hcut
    rw [hcut] at hinner
    refine ⟨start ++ after, [], (List.append_nil _).symm, .last hinner, fun hne => ?_⟩
    have hpos := byteLength_pos hne
    rw [byteLength_append]
    omega
  · rw [htail] at hcut
    refine ⟨start ++ after.takeWhile (· != '\n') ++ ['\n'], tail, ?_, .ended hinner, fun _ => ?_⟩
    · rw [List.append_assoc, List.append_assoc, List.singleton_append, hcut]
    · have hpos : 0 < byteLength ['\n'] := byteLength_pos (List.cons_ne_nil _ _)
      rw [byteLength_append, byteLength_append]
      omega

theorem Grammar.withEndMark_of_tokenize {source file : String} {tokens : List Token}
    (h : Token.tokenize source file = .ok tokens) (path : String) : withEndMark tokens path = tokens := by
  obtain ⟨s, hrun, rfl⟩ := Token.Scan.exists_run_of_tokenize h
  obtain ⟨tail, mark, hfinish, hmark, _⟩ :=
    Token.Scan.exists_finish file (Token.Scan.Orderly.start.run hrun).laid
  unfold withEndMark
  rw [hfinish, List.getLast?_concat]
  exact if_pos hmark

/-- A fault of reading a source is at a place of the source, which the text before it gives. -/
theorem exists_after_of_fault {source file path : String} {fault : Fault}
    (h : Token.tokenize source file = .error fault ∨ ∃ tokens, Token.tokenize source file = .ok tokens ∧
      Grammar.parse tokens path = .error (.fault fault)) :
    ∃ before after, source.toList = before ++ after ∧ fault.position = .after file before := by
  obtain h | ⟨tokens, htokens, hparse⟩ := h
  · exact Token.exists_after_of_tokenize_error h
  · have hwithin := (Grammar.Reading.within (Grammar.withEndMark tokens path)).parse tokens path
      (Grammar.Cursor.tokens_ofTokens tokens path ▸ List.suffix_rfl)
    rw [hparse, Grammar.withEndMark_of_tokenize htokens] at hwithin
    obtain ⟨t, ht, hplace⟩ := hwithin
    obtain ⟨before, piece, after, hcut, hspans⟩ := (Token.tiled_of_tokenize htokens).exists_spans ht
    refine ⟨before, piece ++ after, hcut.trans (List.append_assoc ..), hplace.trans ?_⟩
    rw [hspans.span]

/-- The line that is shown of a fault is the right one. If a source cannot be read, and the place of the
fault is not behind its end, then the line of the source that is found for it is the line of that number,
with its line end, and the column found is that of the place. -/
theorem line_of_fault {source file path : String} {fault : Fault}
    (h : Token.tokenize source file = .error fault ∨ ∃ tokens, Token.tokenize source file = .ok tokens ∧
      Grammar.parse tokens path = .error (.fault fault))
    (hinside : fault.position.offset < byteLength source.toList) :
    ∃ head line tail, source.toList = head ++ (line ++ tail) ∧ (∀ c ∈ head.getLast?, c = '\n') ∧
      IsLine line tail ∧ head.count '\n' + 1 = fault.position.line ∧
      byteLength head + fault.position.column = fault.position.offset ∧
      lineAt? source.toList fault.position.offset =
        some ⟨fault.position.line, line, fault.position.column⟩ := by
  obtain ⟨before, after, hsource, hplace⟩ := exists_after_of_fault h
  obtain ⟨head, start, rfl, hhead, hstart⟩ := exists_lineStart before
  obtain ⟨line, tail, hcut, hline, hcolumn⟩ := isLine_around hstart after
  rw [Position.after_append file hhead hstart] at hplace
  rw [List.append_assoc, hcut] at hsource
  rw [hplace] at hinside ⊢
  have hcolumn : byteLength start < byteLength line := hcolumn fun hnil => by
    have hlength := congrArg byteLength hcut
    rw [hnil, List.append_nil, byteLength_append] at hlength
    rw [hsource, byteLength_append, byteLength_append, ← hlength] at hinside
    exact absurd hinside (Nat.lt_irrefl _)
  exact ⟨head, line, tail, hsource, hhead, hline, rfl, rfl, lineAt?_of_isLine hsource hhead hline hcolumn⟩

/-- A bracket too many comes after a literal over two lines, in which a character takes two bytes. -/
theorem line_of_fault_two_lines :
    ∃ tokens fault, Token.tokenize "x = \"\"\"a\r\né\"\"\" )\r\n" "main.py" = .ok tokens ∧
      Grammar.parse tokens "main.py" = .error (.fault fault) ∧ fault.position = ⟨16, 2, 6, "main.py"⟩ ∧
      fault.position.offset < byteLength "x = \"\"\"a\r\né\"\"\" )\r\n".toList ∧
      ∃ head line tail, "x = \"\"\"a\r\né\"\"\" )\r\n".toList = head ++ (line ++ tail) ∧
        (∀ c ∈ head.getLast?, c = '\n') ∧ IsLine line tail ∧
        head.count '\n' + 1 = fault.position.line ∧
        byteLength head + fault.position.column = fault.position.offset ∧
        lineAt? "x = \"\"\"a\r\né\"\"\" )\r\n".toList fault.position.offset =
          some ⟨fault.position.line, line, fault.position.column⟩ := by
  have hread : (match Token.tokenize "x = \"\"\"a\r\né\"\"\" )\r\n" "main.py" with
      | .error _ => none
      | .ok tokens =>
        match Grammar.parse tokens "main.py" with
        | .error (.fault fault) => some fault.position
        | _ => none) = some ⟨16, 2, 6, "main.py"⟩ := by
    decide +kernel
  cases htokens : Token.tokenize "x = \"\"\"a\r\né\"\"\" )\r\n" "main.py" with
  | error fault =>
    rw [htokens] at hread
    cases hread
  | ok tokens =>
    rw [htokens] at hread
    simp only at hread
    split at hread
    · rename_i fault hparse
      have hposition : fault.position = ⟨16, 2, 6, "main.py"⟩ := Option.some.inj hread
      have hinside : fault.position.offset < byteLength "x = \"\"\"a\r\né\"\"\" )\r\n".toList := by
        rw [hposition]
        decide
      exact ⟨tokens, fault, rfl, hparse, hposition, hinside,
        line_of_fault (.inr ⟨tokens, htokens, hparse⟩) hinside⟩
    · cases hread

end Credence

import Credence.Proofs.Wording

namespace Credence.Token

namespace Literal

theorem isTag_iff {tag : List Char} : isTag tag = true ↔ tag.map Char.toLower ∈
    [[], ['r'], ['b'], ['u'], ['f'], ['r', 'b'], ['b', 'r'], ['f', 'r'], ['r', 'f']] := by
  have hlist (cs : List Char) (s : String) : String.ofList cs = s ↔ cs = s.toList :=
    ⟨fun h => by rw [← h, String.toList_ofList], fun h => by rw [h, String.ofList_toList]⟩
  simp [isTag, hlist]

theorem length_le_of_isTag {tag : List Char} (h : isTag tag = true) : tag.length ≤ 2 := by
  have hall : ∀ letters ∈ [[], ['r'], ['b'], ['u'], ['f'], ['r', 'b'], ['b', 'r'], ['f', 'r'],
      ['r', 'f']], letters.length ≤ 2 := by decide
  simpa using hall _ (isTag_iff.1 h)

theorem toLower_mem_of_isTag {tag : List Char} (h : isTag tag = true) {c : Char} (hc : c ∈ tag) :
    c.toLower ∈ ['r', 'b', 'u', 'f'] := by
  have hall : ∀ letters ∈ [[], ['r'], ['b'], ['u'], ['f'], ['r', 'b'], ['b', 'r'], ['f', 'r'],
      ['r', 'f']], letters.all (['r', 'b', 'u', 'f'].contains ·) = true := by decide
  have hletters := List.all_eq_true.1 (hall _ (isTag_iff.1 h))
  exact List.contains_iff_mem.1 (hletters _ (List.mem_map_of_mem hc))

theorem isQuote_iff {c : Char} : isQuote c = true ↔ c = '"' ∨ c = '\'' := by
  simp [isQuote]

theorem isQuote_of_isTag {tag : List Char} (h : isTag tag = true) {c : Char} (hc : c ∈ tag) :
    isQuote c = false := by
  have hletter := toLower_mem_of_isTag h hc
  refine Bool.eq_false_iff.2 fun hquote => ?_
  obtain rfl | rfl := isQuote_iff.1 hquote <;> exact absurd hletter (by decide)

theorem tag?_append {tag : List Char} (h : isTag tag = true) {quote : Char} (hquote : isQuote quote = true)
    (rest : List Char) : tag? (tag ++ quote :: rest) = some tag := by
  have hlength := length_le_of_isTag h
  have htag : ((tag ++ quote :: rest).take 3).takeWhile (fun c => !isQuote c) = tag := by
    obtain ⟨n, hn⟩ : ∃ n, 3 - tag.length = n + 1 := ⟨2 - tag.length, by omega⟩
    rw [List.take_append, List.take_of_length_le (by omega), hn, List.take_succ_cons,
      List.takeWhile_append_of_pos fun c hc => by rw [isQuote_of_isTag h hc]; rfl,
      List.takeWhile_cons_of_neg (by rw [hquote]; exact Bool.false_ne_true), List.append_nil]
  unfold tag?
  simp only [htag, h, List.drop_left, List.head?_cons, Option.any_some, hquote, Bool.and_self, if_true]

def kindOf (tag : List Char) : Kind :=
  if (tag.map Char.toLower).contains 'b' then .bytes
  else if (tag.map Char.toLower).contains 'f' then .formatString
  else .string

theorem kindOf_ne_newline (tag : List Char) : kindOf tag ≠ .newline := by
  unfold kindOf
  split
  · nofun
  · split <;> nofun

def isRaw (tag : List Char) : Bool :=
  (tag.map Char.toLower).contains 'r'

def textOf (tag content : List Char) : List Char :=
  if isRaw tag then content else unescape content

/-- What stands between two quotes on one line: a backslash takes the next character with it, and other
than so there is no quote and no line end. -/
inductive Inside (quote : Char) : List Char → Prop
  | nil : Inside quote []
  | plain {c : Char} {cs : List Char} (hquote : c ≠ quote) (hline : c ≠ '\n') (hslash : c ≠ '\\')
      (h : Inside quote cs) : Inside quote (c :: cs)
  | escaped (c : Char) {cs : List Char} (h : Inside quote cs) : Inside quote ('\\' :: c :: cs)

variable {quote : Char}

theorem isQuote_ne_slash (h : isQuote quote = true) : '\\' ≠ quote := by
  rintro rfl
  cases h

theorem Inside.append {cs ds : List Char} (hcs : Inside quote cs) (hds : Inside quote ds) :
    Inside quote (cs ++ ds) := by
  induction hcs with
  | nil => exact hds
  | plain hquote hline hslash _ ih => exact .plain hquote hline hslash ih
  | escaped c _ ih => exact .escaped c ih

theorem closeSingle?_quote (cs : List Char) : closeSingle? quote (quote :: cs) = some 1 := by
  unfold closeSingle?
  exact if_pos rfl

theorem closeSingle?_plain {c : Char} {cs : List Char} (hquote : c ≠ quote) (hline : c ≠ '\n')
    (hslash : c ≠ '\\') : closeSingle? quote (c :: cs) = (closeSingle? quote cs).map (· + 1) := by
  conv_lhs => unfold closeSingle?
  rw [if_neg hquote, if_neg hline, if_neg hslash]

theorem closeSingle?_escaped (hquote : isQuote quote = true) {c : Char} {cs : List Char} :
    closeSingle? quote ('\\' :: c :: cs) = (closeSingle? quote cs).map (· + 2) := by
  conv_lhs => unfold closeSingle?
  rw [if_neg (isQuote_ne_slash hquote), if_neg (by decide), if_pos rfl]

theorem closeSingle?_of_inside (hquote : isQuote quote = true) {content : List Char}
    (h : Inside quote content) (rest : List Char) :
    closeSingle? quote (content ++ quote :: rest) = some (content.length + 1) := by
  induction h with
  | nil => exact closeSingle?_quote rest
  | plain hne hline hslash _ ih =>
    rw [List.cons_append, closeSingle?_plain hne hline hslash, ih]
    rfl
  | escaped c _ ih =>
    rw [List.cons_append, List.cons_append, closeSingle?_escaped hquote, ih]
    rfl

theorem exists_inside_of_closeSingle? {cs : List Char} {n : Nat} (h : closeSingle? quote cs = some n) :
    ∃ content rest, cs = content ++ quote :: rest ∧ Inside quote content := by
  induction cs using closeSingle?.induct quote generalizing n with
  | case1 => cases h
  | case2 cs => exact ⟨[], cs, rfl, .nil⟩
  | case3 cs hquote =>
    unfold closeSingle? at h
    rw [if_neg hquote, if_pos rfl] at h
    cases h
  | case4 hquote hline =>
    unfold closeSingle? at h
    rw [if_neg hquote, if_neg hline, if_pos rfl] at h
    cases h
  | case5 c cs hquote hline ih =>
    unfold closeSingle? at h
    rw [if_neg hquote, if_neg hline, if_pos rfl] at h
    obtain ⟨m, hm, _⟩ := Option.map_eq_some_iff.1 h
    obtain ⟨content, rest, rfl, hinside⟩ := ih hm
    exact ⟨'\\' :: c :: content, rest, rfl, .escaped c hinside⟩
  | case6 c cs hquote hline hslash ih =>
    rw [closeSingle?_plain hquote hline hslash] at h
    obtain ⟨m, hm, _⟩ := Option.map_eq_some_iff.1 h
    obtain ⟨content, rest, rfl, hinside⟩ := ih hm
    exact ⟨c :: content, rest, rfl, .plain hquote hline hslash hinside⟩

/-- A quote ends what stands inside, so that three quotes in a row begin no such literal but the empty
one. -/
theorem body?_of_inside (hquote : isQuote quote = true) {content rest : List Char}
    (h : Inside quote content) (hrest : content = [] → rest.head? ≠ some quote) :
    body? (quote :: (content ++ quote :: rest)) = some (false, content.length + 2) := by
  have hsingle : (closeSingle? quote (content ++ quote :: rest)).map (fun n => (false, n + 1)) =
      some (false, content.length + 2) := by
    rw [closeSingle?_of_inside hquote h]
    rfl
  unfold body?
  simp only [hsingle]
  split
  · rename_i d e ds heq
    -- Three quotes in a row would put a quote right behind the opening one.
    refine if_neg fun ⟨hd, he⟩ => ?_
    cases h with
    | nil =>
      obtain ⟨_, hrest'⟩ := List.cons.inj heq
      exact hrest rfl (by rw [hrest', he]; rfl)
    | plain hne => exact hne ((List.cons.inj heq).1.trans hd)
    | escaped c => exact isQuote_ne_slash hquote ((List.cons.inj heq).1.trans hd)
  · rfl

/-- A character as it is written between quotes. -/
def writeChar (quote c : Char) : List Char :=
  if c = '\\' ∨ c = quote then ['\\', c] else if c = '\n' then ['\\', 'n'] else [c]

def write (quote : Char) (text : List Char) : List Char :=
  text.flatMap (writeChar quote)

theorem inside_writeChar (c : Char) : Inside quote (writeChar quote c) := by
  unfold writeChar
  split
  · exact .escaped c .nil
  · rename_i hplain
    rw [not_or] at hplain
    split
    · exact .escaped 'n' .nil
    · rename_i hline
      exact .plain hplain.2 hline hplain.1 .nil

theorem inside_write (text : List Char) : Inside quote (write quote text) := by
  induction text with
  | nil => exact .nil
  | cons c text ih => exact (inside_writeChar c).append ih

theorem unescape_writeChar (hquote : isQuote quote = true) (c : Char) (rest : List Char) :
    unescape (writeChar quote c ++ rest) = c :: unescape rest := by
  have hescape {d : Char} (hd : escape? (d :: rest) = some ([c], 1)) :
      unescape ('\\' :: d :: rest) = c :: unescape rest := by
    rw [unescape, if_pos rfl, hd]
    rfl
  unfold writeChar
  split
  · rename_i hmarked
    refine hescape ?_
    obtain rfl | rfl := hmarked
    · rfl
    · obtain rfl | rfl := isQuote_iff.1 hquote <;> rfl
  · rename_i hplain
    split
    · rename_i hline
      exact hescape (by rw [hline]; rfl)
    · rw [not_or] at hplain
      rw [List.singleton_append, unescape, if_neg hplain.1]

theorem unescape_write (hquote : isQuote quote = true) (text : List Char) :
    unescape (write quote text) = text := by
  induction text with
  | nil => rw [write, List.flatMap_nil, unescape]
  | cons c text ih =>
    rw [write, List.flatMap_cons, unescape_writeChar hquote]
    exact congrArg (c :: ·) ih

end Literal

open Text Literal

theorem Scan.literal_of_quotes {tag quotes content : List Char} {triple : Bool}
    (h : quotes.length = if triple then 3 else 1) :
    Scan.literal tag.length triple (tag ++ (quotes ++ (content ++ quotes))) =
      (kindOf tag, String.ofList (textOf tag content)) := by
  have hdrop : (tag ++ (quotes ++ (content ++ quotes))).drop (tag.length + quotes.length) =
      content ++ quotes := by
    rw [← List.append_assoc, ← List.length_append, List.drop_left]
  have htake : (content ++ quotes).take ((tag ++ (quotes ++ (content ++ quotes))).length - tag.length -
      2 * quotes.length) = content := by
    refine List.take_left' ?_
    simp only [List.length_append]
    omega
  unfold Scan.literal
  simp only [← h, hdrop, htake, List.take_left]
  rfl

theorem Scan.takeLexeme_literal (file : String) (s : Scan) {tag quotes content : List Char} {triple : Bool}
    (h : quotes.length = if triple then 3 else 1) :
    s.takeLexeme file (.literal tag.length triple) (tag ++ (quotes ++ (content ++ quotes))) =
      .ok ((s.push file (kindOf tag) (String.ofList (textOf tag content))
        (byteLength (tag ++ (quotes ++ (content ++ quotes))))).advance
          (tag ++ (quotes ++ (content ++ quotes)))) := by
  unfold Scan.takeLexeme
  simp only [Scan.literal_of_quotes h]

/-- A literal on one line, with its tag and its quotes. -/
def quoted (tag : List Char) (quote : Char) (content : List Char) : List Char :=
  tag ++ ([quote] ++ (content ++ [quote]))

namespace Lexeme

theorem ofText?_of_literal? {cs : List Char} {found : Lexeme × Nat} (h : literal? cs = some found) :
    ofText? cs = some found := by
  unfold ofText?
  rw [h]
  rfl

theorem ofText?_of_body? {tag : List Char} {quote : Char} {cs : List Char} {triple : Bool} {n : Nat}
    (htag : isTag tag = true) (hquote : isQuote quote = true)
    (hbody : body? (quote :: cs) = some (triple, n)) :
    ofText? (tag ++ quote :: cs) = some (.literal tag.length triple, tag.length + n) := by
  refine ofText?_of_literal? ?_
  unfold literal?
  rw [tag?_append htag hquote]
  simp only [List.drop_left, hbody]

theorem ofText?_of_open {tag : List Char} {quote : Char} {cs : List Char} (htag : isTag tag = true)
    (hquote : isQuote quote = true) (hbody : body? (quote :: cs) = none) :
    ofText? (tag ++ quote :: cs) = some (.openLiteral, 1) := by
  refine ofText?_of_literal? ?_
  unfold literal?
  rw [tag?_append htag hquote]
  simp only [List.drop_left, hbody]

theorem ofText?_quoted {tag : List Char} {quote : Char} {content rest : List Char}
    (htag : isTag tag = true) (hquote : isQuote quote = true) (h : Inside quote content)
    (hrest : content = [] → rest.head? ≠ some quote) :
    ofText? (quoted tag quote content ++ rest) =
      some (.literal tag.length false, (quoted tag quote content).length) := by
  have hcut : quoted tag quote content ++ rest = tag ++ quote :: (content ++ quote :: rest) := by
    simp [quoted]
  have hlength : (quoted tag quote content).length = tag.length + (content.length + 2) := by
    simp [quoted]
  rw [hcut, hlength]
  exact ofText?_of_body? htag hquote (body?_of_inside hquote h hrest)

end Lexeme

theorem exists_head_of_quoted {tag : List Char} {quote : Char} (htag : isTag tag = true)
    (hquote : isQuote quote = true) (content : List Char) :
    ∃ c cs, quoted tag quote content = c :: cs ∧ c ∉ [' ', '\t', '\x0c', '\n', '\r', '#'] := by
  cases tag with
  | nil =>
    refine ⟨quote, content ++ [quote], rfl, ?_⟩
    cases isQuote_iff.1 hquote with
    | inl h => rw [h]; decide
    | inr h => rw [h]; decide
  | cons c tag =>
    refine ⟨c, tag ++ ([quote] ++ (content ++ [quote])), rfl, fun hmem => ?_⟩
    have hall : [' ', '\t', '\x0c', '\n', '\r', '#'].all
        (fun d => !(['r', 'b', 'u', 'f'].contains d.toLower)) = true := by decide
    have hother := List.all_eq_true.1 hall c hmem
    rw [List.contains_iff_mem.2 (toLower_mem_of_isTag htag List.mem_cons_self)] at hother
    cases hother

theorem Scan.run_start_quoted (file : String) {tag : List Char} {quote : Char} {content : List Char}
    (htag : isTag tag = true) (hquote : isQuote quote = true) :
    run file {} (quoted tag quote content) = run file { fresh := false } (quoted tag quote content) := by
  obtain ⟨c, cs, hcs, hne⟩ := exists_head_of_quoted htag hquote content
  have hother {d : Char} (hd : d ∈ [' ', '\t', '\x0c', '\n', '\r', '#']) : c ≠ d := fun heq =>
    hne (heq ▸ hd)
  have hblank : Lexeme.isIndentation c = false := by
    simp [Lexeme.isIndentation, hother (d := ' '), hother (d := '\t'), hother (d := '\x0c')]
  rw [hcs]
  exact run_start hblank (hother (by decide)) (hother (by decide)) (hother (by decide))

theorem exists_tokenize_quoted {tag : List Char} {quote : Char} {content : List Char}
    (htag : isTag tag = true) (hquote : isQuote quote = true) (h : Inside quote content) (file : String) :
    ∃ tokens, tokenize (String.ofList (quoted tag quote content)) file = .ok tokens ∧
      tokens.map face = [(kindOf tag, String.ofList (textOf tag content)), (.newline, "\n"),
        (.eof, "EOF")] := by
  have hlexeme : Lexeme.ofText? (quoted tag quote content ++ []) =
      some (.literal tag.length false, (quoted tag quote content).length) :=
    Lexeme.ofText?_quoted htag hquote h fun _ => nofun
  let s : Scan := { fresh := false }
  let t := (s.push file (kindOf tag) (String.ofList (textOf tag content))
    (byteLength (quoted tag quote content))).advance (quoted tag quote content)
  have htake : s.takeLexeme file (.literal tag.length false) (quoted tag quote content) = .ok t :=
    s.takeLexeme_literal file rfl
  have hrun : Scan.run file {} (quoted tag quote content) = .ok t := by
    have hne : quoted tag quote content ≠ [] := by simp [quoted]
    have hone : Scan.run file s (quoted tag quote content ++ []) = Scan.run file t [] :=
      Scan.run_lexeme rfl hne hlexeme htake
    rw [List.append_nil] at hone
    rw [Scan.run_start_quoted file htag hquote, hone, Scan.run]
  have hlast : t.atLineEnd = false := beq_eq_false_iff_ne.2 (kindOf_ne_newline tag)
  obtain ⟨u, hu, _, hfaces⟩ := Scan.exists_run_end file (s := t) rfl hlast (.inl rfl)
  rw [Scan.run] at hu
  cases hu
  refine ⟨t.finish file, ?_, ?_⟩
  · unfold tokenize
    rw [String.toList_ofList, hrun]
    rfl
  · rw [Scan.faces_finish file rfl, hfaces]
    rfl

/-- Literals are read back. What is written of a text between two quotes is the inside of a literal, and
the source that is this literal gives one string token with the text, before the end of the line and the
end mark. With the tag for raw literals the text of the token is what stands between the quotes. -/
theorem literal_read_back {quote : Char} (hquote : isQuote quote = true) (text file : String) :
    (∃ tokens, tokenize (String.ofList (quoted [] quote (write quote text.toList))) file = .ok tokens ∧
      tokens.map face = [(.string, text), (.newline, "\n"), (.eof, "EOF")]) ∧
    Inside quote (write quote text.toList) ∧
    ∀ content, Inside quote content → ∀ letter ∈ ['r', 'R'],
      ∃ tokens, tokenize (String.ofList (quoted [letter] quote content)) file = .ok tokens ∧
        tokens.map face = [(.string, String.ofList content), (.newline, "\n"), (.eof, "EOF")] := by
  refine ⟨?_, inside_write text.toList, fun content hcontent letter hletter => ?_⟩
  · have htag : isTag [] = true := by decide
    have hread := exists_tokenize_quoted htag hquote (inside_write text.toList) file
    have htext : textOf [] (write quote text.toList) = text.toList := unescape_write hquote _
    rwa [htext, String.ofList_toList] at hread
  · have htag : isTag [letter] = true ∧ isRaw [letter] = true ∧ kindOf [letter] = .string := by
      simp only [List.mem_cons, List.not_mem_nil, or_false] at hletter
      obtain rfl | rfl := hletter <;> decide +kernel
    obtain ⟨htag, hraw, hkind⟩ := htag
    have hread := exists_tokenize_quoted htag hquote hcontent file
    rwa [hkind, textOf, if_pos hraw] at hread

/-- A text of backslashes, quotes and a line end, which has the look of an escape as well. In the raw
literal a backslash keeps the quote from the end, and stays. -/
theorem literal_read_back_of_marks :
    isQuote '"' = true ∧
    (∃ tokens, tokenize "\"\\\\\\\"'\\n\\\\x41\"" "main.py" = .ok tokens ∧
      tokens.map face = [(.string, "\\\"'\n\\x41"), (.newline, "\n"), (.eof, "EOF")]) ∧
    Inside '"' "\\\\\\\"'\\n\\\\x41".toList ∧ Inside '"' "\\d\\\"".toList ∧
    ∃ tokens, tokenize "r\"\\d\\\"\"" "main.py" = .ok tokens ∧
      tokens.map face = [(.string, "\\d\\\""), (.newline, "\n"), (.eof, "EOF")] := by
  have hquote : isQuote '"' = true := rfl
  have hinside : Inside '"' "\\d\\\"".toList := .escaped 'd' (.escaped '"' .nil)
  obtain ⟨hread, hwrite, hraw⟩ := literal_read_back hquote "\\\"'\n\\x41" "main.py"
  exact ⟨hquote, hread, hwrite, hinside, hraw _ hinside 'r' List.mem_cons_self⟩

end Credence.Token

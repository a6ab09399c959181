import Credence.Proofs.Quotation
import Mathlib.Data.List.DropRight

namespace Credence.Token

namespace Literal

variable {quote : Char} {cs body rest : List Char}

def three (quote : Char) : List Char :=
  [quote, quote, quote]

/-- Whether what comes after a text is escaped: its last backslash is not escaped itself, where backslashes
in a row escape each other in pairs. -/
def EndsEscaping (cs : List Char) : Prop :=
  (cs.rtakeWhile (· == '\\')).length % 2 = 1

instance (cs : List Char) : Decidable (EndsEscaping cs) :=
  inferInstanceAs (Decidable (_ = 1))

/-- The first three quotes of a text that stand after something which admits them. -/
structure FirstThree (admits : List Char → Prop) (quote : Char) (cs body rest : List Char) : Prop where
  cut : cs = body ++ (three quote ++ rest)
  admitted : admits body
  first : ∀ early late, cs = early ++ (three quote ++ late) → admits early → body.length ≤ early.length

/-- Three quotes whose first one no backslash escapes. -/
abbrev FirstUnescaped : Char → List Char → List Char → List Char → Prop :=
  FirstThree fun body => ¬ EndsEscaping body

/-- Three quotes, escaped or not. -/
abbrev FirstAny : Char → List Char → List Char → List Char → Prop :=
  FirstThree fun _ => True

theorem exists_firstThree {admits : List Char → Prop} (hcut : cs = body ++ (three quote ++ rest))
    (hbody : admits body) : ∃ body rest, FirstThree admits quote cs body rest := by
  induction hn : body.length using Nat.strongRecOn generalizing body rest with
  | _ n ih =>
    by_cases hfirst : ∀ early late, cs = early ++ (three quote ++ late) → admits early →
        body.length ≤ early.length
    · exact ⟨body, rest, hcut, hbody, hfirst⟩
    · push Not at hfirst
      obtain ⟨early, late, hearly, hadmits, hlt⟩ := hfirst
      exact ih early.length (hn ▸ hlt) hearly hadmits rfl

theorem firstThree_of_places {admits : List Char → Prop} (hcut : cs = body ++ (three quote ++ rest))
    (hbody : admits body)
    (h : ∀ n < body.length, (cs.drop n).take 3 = three quote → ¬ admits (cs.take n)) :
    FirstThree admits quote cs body rest := by
  refine ⟨hcut, hbody, fun early late hearly hadmits => Nat.le_of_not_lt fun hlt => ?_⟩
  refine h early.length hlt ?_ ?_ <;> rw [hearly]
  · rw [List.drop_left]
    exact List.take_left' rfl
  · rwa [List.take_left]

theorem closeTriple?_three (cs : List Char) : closeTriple? quote (three quote ++ cs) = some 3 := by
  change closeTriple? quote (quote :: quote :: quote :: cs) = some 3
  unfold closeTriple?
  exact if_pos ⟨rfl, rfl, rfl⟩

theorem closeTriple?_cons {c : Char} (h : ∀ rest, c :: cs ≠ three quote ++ rest) :
    closeTriple? quote (c :: cs) = (closeTriple? quote cs).map (· + 1) := by
  conv_lhs => unfold closeTriple?
  cases cs with
  | nil => rfl
  | cons d ds =>
    cases ds with
    | nil => rfl
    | cons e es =>
      refine if_neg ?_
      rintro ⟨rfl, rfl, rfl⟩
      exact h es rfl

theorem closeTriple?_of_first (h : FirstAny quote cs body rest) :
    closeTriple? quote cs = some (body.length + 3) := by
  obtain ⟨rfl, -, hfirst⟩ := h
  induction body with
  | nil => exact closeTriple?_three rest
  | cons c body ih =>
    have hlater : ∀ late, c :: (body ++ (three quote ++ rest)) ≠ three quote ++ late := fun late heq =>
      absurd (hfirst [] late heq trivial) (Nat.not_succ_le_zero _)
    rw [List.cons_append, closeTriple?_cons hlater, ih fun early late heq _ =>
      Nat.le_of_succ_le_succ (hfirst (c :: early) late (congrArg (c :: ·) heq) trivial)]
    rfl

theorem closeTriple?_eq_none (h : ∀ body rest, cs ≠ body ++ (three quote ++ rest)) :
    closeTriple? quote cs = none := by
  induction cs with
  | nil => rfl
  | cons c cs ih =>
    rw [closeTriple?_cons fun rest => h [] rest,
      ih fun body rest heq => h (c :: body) rest (congrArg (c :: ·) heq)]
    rfl

theorem body?_of_first (h : FirstAny quote cs body rest) :
    body? (three quote ++ cs) = some (true, body.length + 6) := by
  change body? (quote :: quote :: quote :: cs) = some (true, body.length + 6)
  unfold body?
  simp only [closeTriple?_of_first h, and_self, if_true]

theorem body?_of_no_three (h : ∀ body rest, cs ≠ body ++ (three quote ++ rest)) :
    body? (three quote ++ cs) = some (false, 2) := by
  change body? (quote :: quote :: quote :: cs) = some (false, 2)
  unfold body?
  simp only [closeTriple?_eq_none h, closeSingle?_quote, and_self, if_true]
  rfl

theorem body?_eq_none (h : ∀ content rest, Inside quote content → cs ≠ content ++ quote :: rest) :
    body? (quote :: cs) = none := by
  have hsingle : closeSingle? quote cs = none := by
    refine Option.eq_none_iff_forall_ne_some.2 fun n hn => ?_
    obtain ⟨content, rest, hcut, hinside⟩ := exists_inside_of_closeSingle? hn
    exact h content rest hinside hcut
  unfold body?
  simp only [hsingle, Option.map_none]
  split
  · rename_i d e ds
    exact if_neg fun heq => h [] (e :: ds) .nil (congrArg (· :: e :: ds) heq.1)
  · rfl

end Literal

open Text Literal

section Lexemes

variable {tag cs body rest : List Char} {quote : Char}

/-- A literal with three quotes on either side. -/
def thriceQuoted (tag : List Char) (quote : Char) (body : List Char) : List Char :=
  tag ++ (three quote ++ (body ++ three quote))

theorem length_thriceQuoted : (thriceQuoted tag quote body).length = tag.length + (body.length + 6) := by
  simp [thriceQuoted, three]

theorem Lexeme.ofText?_thriceQuoted (htag : isTag tag = true) (hquote : isQuote quote = true)
    (h : FirstAny quote cs body rest) :
    ofText? (tag ++ (three quote ++ cs)) =
      some (.literal tag.length true, (thriceQuoted tag quote body).length) := by
  rw [length_thriceQuoted]
  exact ofText?_of_body? htag hquote (body?_of_first h)

theorem thriceQuoted_append (h : cs = body ++ (three quote ++ rest)) :
    thriceQuoted tag quote body ++ rest = tag ++ (three quote ++ cs) := by
  simp [thriceQuoted, h]

end Lexemes

namespace Scan

variable {file source : String} {s : Scan} {cs : List Char}

/-- How far a scan of a source gets: its state, and the text that is left. -/
inductive Reaches (file source : String) : Scan → List Char → Prop
  | start : Reaches file source {} source.toList
  | step {s t : Scan} {text rest : List Char} (h : Reaches file source s (text ++ rest))
      (hstep : Step file s text rest t) : Reaches file source t rest

theorem Reaches.run (h : Reaches file source s cs) :
    Scan.run file {} source.toList = Scan.run file s cs := by
  induction h with
  | start => rfl
  | step _ hstep ih => exact ih.trans hstep.run

theorem reaches_of_quote {quote : Char} (hquote : isQuote quote = true) (h : source.toList = quote :: cs) :
    Reaches file source { fresh := false } (quote :: cs) := by
  have hstep : Step file {} [] (quote :: cs) { fresh := false } := by
    obtain rfl | rfl := isQuote_iff.1 hquote <;>
      exact step_start rfl (by decide) (by decide) (by decide)
  have hreach : Reaches file source {} ([] ++ quote :: cs) := by
    rw [List.nil_append, ← h]
    exact .start
  exact .step hreach hstep

variable {tag : List Char} {quote : Char} {body rest : List Char}

theorem exists_step_thriceQuoted (file : String) (hs : s.fresh = false) (htag : isTag tag = true)
    (hquote : isQuote quote = true) (h : FirstAny quote cs body rest) :
    ∃ t, Step file s (thriceQuoted tag quote body) rest t ∧
      t.faces = s.faces ++ [(kindOf tag, String.ofList (textOf tag body))] := by
  have hne : thriceQuoted tag quote body ≠ [] := by simp [thriceQuoted, three]
  have hlexeme := Lexeme.ofText?_thriceQuoted htag hquote h
  rw [← thriceQuoted_append h.cut] at hlexeme
  exact ⟨_, .of_lexeme hs hne hlexeme (s.takeLexeme_literal file rfl), faces_push s _ _ _⟩

theorem first_of_step_thriceQuoted {t : Scan} (hs : s.fresh = false) (htag : isTag tag = true)
    (hquote : isQuote quote = true) (hcut : cs = body ++ (three quote ++ rest))
    (h : Step file s (thriceQuoted tag quote body) rest t) : FirstAny quote cs body rest := by
  obtain ⟨least, late, hleast⟩ : ∃ least late, FirstAny quote cs least late :=
    exists_firstThree hcut trivial
  have hle : body.length ≤ least.length := by
    have hlexeme := Lexeme.ofText?_thriceQuoted htag hquote hleast
    rw [← thriceQuoted_append hcut] at hlexeme
    cases h with
    | blank hfresh => rw [hs] at hfresh; cases hfresh
    | indentation hfresh => rw [hs] at hfresh; cases hfresh
    | lexeme _ hfound htext _ =>
      -- The lexeme is as long as the first three quotes make it, so nothing comes after these.
      rw [hlexeme] at hfound
      cases hfound
      have hlength := congrArg List.length htext
      rw [List.length_take, length_thriceQuoted, length_thriceQuoted] at hlength
      omega
  exact ⟨hcut, trivial, fun early late hearly _ => hle.trans (hleast.first early late hearly trivial)⟩

theorem exists_step_empty (file : String) (hs : s.fresh = false) (htag : isTag tag = true)
    (hquote : isQuote quote = true) (h : ∀ body rest, cs ≠ body ++ (three quote ++ rest)) :
    ∃ t, Step file s (quoted tag quote []) (quote :: cs) t ∧ t.fresh = false ∧
      t.place = s.place.advance (quoted tag quote []) ∧ t.faces = s.faces ++ [(kindOf tag, "")] := by
  have hne : quoted tag quote [] ≠ [] := by simp [quoted]
  have hlexeme : Lexeme.ofText? (quoted tag quote [] ++ quote :: cs) =
      some (.literal tag.length false, (quoted tag quote []).length) := by
    have hcut : quoted tag quote [] ++ quote :: cs = tag ++ (three quote ++ cs) := by
      simp [quoted, three]
    have hlength : (quoted tag quote []).length = tag.length + 2 := by simp [quoted]
    rw [hcut, hlength]
    exact Lexeme.ofText?_of_body? htag hquote (body?_of_no_three h)
  have hnone : textOf tag [] = [] := by
    unfold textOf
    rw [unescape, ite_self]
  have hstep := Step.of_lexeme hs hne hlexeme (s.takeLexeme_literal file rfl)
  rw [hnone] at hstep
  exact ⟨_, hstep, hs, rfl, faces_push s _ _ _⟩

theorem run_open (hs : s.fresh = false) (hquote : isQuote quote = true)
    (h : ∀ content rest, Inside quote content → cs ≠ content ++ quote :: rest) :
    run file s (quote :: cs) = .error (s.fault file .unterminatedString) := by
  have htag : isTag [] = true := by decide
  have hlexeme : Lexeme.ofText? (quote :: cs) = some (.openLiteral, 1) := by
    have hopen := Lexeme.ofText?_of_open htag hquote (body?_eq_none h)
    rwa [List.nil_append] at hopen
  rw [run, dif_neg (by rw [hs]; exact Bool.false_ne_true), hlexeme]
  rfl

end Scan

/-- Where a literal in three quotes ends, wherever it begins in a source, unless its tag makes it a raw
one. It is one token up to the first three quotes after the opening ones. These are the first ones that no
backslash escapes, if there are such, exactly when no three quotes come before those. When there are no
three quotes at all, the first two of the opening ones are an empty literal, and the third is where the
source cannot be read, unless another quote ends a literal on its line. -/
theorem thriceQuoted_ends {file source : String} {s : Scan} {tag : List Char} {quote : Char}
    {cs : List Char} (hreach : Scan.Reaches file source s (tag ++ (three quote ++ cs)))
    (hs : s.fresh = false) (htag : isTag tag = true) (hraw : isRaw tag = false)
    (hquote : isQuote quote = true) :
    (∀ body rest, FirstAny quote cs body rest →
      ∃ t, Scan.Step file s (thriceQuoted tag quote body) rest t ∧
        t.faces = s.faces ++ [(kindOf tag, String.ofList (unescape body))]) ∧
    (∀ body rest, FirstUnescaped quote cs body rest →
      ((∃ t, Scan.Step file s (thriceQuoted tag quote body) rest t) ↔
        FirstAny quote cs body rest)) ∧
    ((∀ body rest, cs ≠ body ++ (three quote ++ rest)) →
      (∃ t, Scan.Step file s (quoted tag quote []) (quote :: cs) t ∧
        t.faces = s.faces ++ [(kindOf tag, "")]) ∧
      ((∀ content rest, Inside quote content → cs ≠ content ++ quote :: rest) →
        tokenize source file = .error ⟨.unterminatedString,
          (s.place.advance (quoted tag quote [])).position file⟩)) := by
  have htext (body : List Char) : textOf tag body = unescape body := if_neg (by rw [hraw]; nofun)
  refine ⟨fun body rest h => ?_, fun body rest h => ⟨fun ⟨t, ht⟩ => ?_, fun h => ?_⟩, fun h => ?_⟩
  · rw [← htext]
    exact Scan.exists_step_thriceQuoted file hs htag hquote h
  · exact Scan.first_of_step_thriceQuoted hs htag hquote h.cut ht
  · obtain ⟨t, ht, _⟩ := Scan.exists_step_thriceQuoted file hs htag hquote h
    exact ⟨t, ht⟩
  · obtain ⟨t, ht, hfresh, hplace, hfaces⟩ := Scan.exists_step_empty file hs htag hquote h
    refine ⟨⟨t, ht, hfaces⟩, fun hopen => ?_⟩
    have hcut : quoted tag quote [] ++ quote :: cs = tag ++ (three quote ++ cs) := by
      simp [quoted, three]
    rw [← hcut] at hreach
    -- The fault is found a step further on, at the third quote.
    have hrun := (hreach.step ht).run.trans (Scan.run_open hfresh hquote hopen)
    unfold tokenize
    rw [hrun, ← hplace]
    rfl

/-- After a backslash that is escaped the literal ends; where nothing ends it, the first two quotes are an
empty literal, and the third begins none. -/
theorem thriceQuoted_ends_after_pair :
    isTag [] = true ∧ isRaw [] = false ∧ isQuote '"' = true ∧
    (∃ s, Scan.Reaches "shell" "\"\"\"a\\\\\"\"\"" s ("\"\"\"".toList ++ "a\\\\\"\"\"".toList) ∧
      s.fresh = false ∧ FirstUnescaped '"' "a\\\\\"\"\"".toList "a\\\\".toList [] ∧
      ∃ t, Scan.Step "shell" s "\"\"\"a\\\\\"\"\"".toList [] t ∧ t.faces = s.faces ++ [(.string, "a\\")]) ∧
    tokenize "\"\"\"a" "shell" = .error ⟨.unterminatedString, ⟨2, 1, 2, "shell"⟩⟩ := by
  have hfirst : FirstUnescaped '"' "a\\\\\"\"\"".toList "a\\\\".toList [] :=
    firstThree_of_places (by decide) (by decide) (by decide)
  have hany : FirstAny '"' "a\\\\\"\"\"".toList "a\\\\".toList [] :=
    firstThree_of_places (by decide) trivial (by decide)
  have hclosed : Scan.Reaches "shell" "\"\"\"a\\\\\"\"\"" { fresh := false }
      ([] ++ (three '"' ++ "a\\\\\"\"\"".toList)) :=
    Scan.reaches_of_quote (by decide) rfl
  have hopen : Scan.Reaches "shell" "\"\"\"a" { fresh := false } ([] ++ (three '"' ++ ['a'])) :=
    Scan.reaches_of_quote (by decide) rfl
  have htext : unescape "a\\\\".toList = "a\\".toList := by decide +kernel
  refine ⟨by decide, by decide, by decide, ⟨_, hclosed, rfl, hfirst, ?_⟩, ?_⟩
  · have hends := (thriceQuoted_ends hclosed rfl (by decide) (by decide) (by decide)).1 _ _ hany
    rw [htext] at hends
    exact hends
  · have hends := thriceQuoted_ends hopen rfl (by decide) (by decide) (by decide)
    refine (hends.2.2 fun body rest hcut => ?_).2 fun content rest _ hcut => ?_
    · have hlength := congrArg List.length hcut
      simp only [three, List.length_append, List.length_cons] at hlength
      omega
    · have hmem : '"' ∈ content ++ '"' :: rest := List.mem_append_right content List.mem_cons_self
      rw [← hcut] at hmem
      exact absurd hmem (by decide)

/-- A literal in three quotes is cut off at three quotes that a backslash escapes, and what comes after them
is no more a text that can be read. -/
theorem thriceQuoted_cut_off :
    ∃ s, Scan.Reaches "shell" "\"\"\"a\\\"\"\"b\"\"\"" s ("\"\"\"".toList ++ "a\\\"\"\"b\"\"\"".toList) ∧
      s.fresh = false ∧ FirstUnescaped '"' "a\\\"\"\"b\"\"\"".toList "a\\\"\"\"b".toList [] ∧
      (∀ t, ¬ Scan.Step "shell" s "\"\"\"a\\\"\"\"b\"\"\"".toList [] t) ∧
      ∃ fault, tokenize "\"\"\"a\\\"\"\"b\"\"\"" "shell" = .error fault := by
  have hreach : Scan.Reaches "shell" "\"\"\"a\\\"\"\"b\"\"\"" { fresh := false }
      "\"\"\"a\\\"\"\"b\"\"\"".toList :=
    Scan.reaches_of_quote (by decide) rfl
  have hfirst : FirstUnescaped '"' "a\\\"\"\"b\"\"\"".toList "a\\\"\"\"b".toList [] :=
    firstThree_of_places (by decide) (by decide) (by decide)
  refine ⟨_, hreach, rfl, hfirst, fun t ht => ?_, ?_⟩
  · have ht : Scan.Step "shell" { fresh := false } (thriceQuoted [] '"' "a\\\"\"\"b".toList) [] t := ht
    have hany : FirstAny '"' "a\\\"\"\"b\"\"\"".toList "a\\\"\"\"b".toList [] :=
      Scan.first_of_step_thriceQuoted rfl (by decide) (by decide) hfirst.cut ht
    exact absurd (hany.first "a\\".toList "b\"\"\"".toList (by decide) trivial) (by decide)
  · have hread : (tokenize "\"\"\"a\\\"\"\"b\"\"\"" "shell").isOk = false := by decide +kernel
    cases htokens : tokenize "\"\"\"a\\\"\"\"b\"\"\"" "shell" with
    | ok tokens =>
      rw [htokens] at hread
      cases hread
    | error fault => exact ⟨fault, rfl⟩

end Credence.Token

import Credence.Token.Scan

namespace Credence.Token

theorem Place.advance_append (p : Place) (xs ys : List Char) :
    p.advance (xs ++ ys) = (p.advance xs).advance ys :=
  List.foldl_append

theorem take_runLength (p : Char → Bool) (cs : List Char) :
    cs.take (runLength p cs) = cs.takeWhile p :=
  (List.prefix_iff_eq_take.1 (List.takeWhile_prefix p)).symm

theorem drop_runLength (p : Char → Bool) (cs : List Char) :
    cs.drop (runLength p cs) = cs.dropWhile p := by
  have hcut := List.takeWhile_append_dropWhile (p := p) (l := cs)
  calc cs.drop (runLength p cs)
    _ = (cs.takeWhile p ++ cs.dropWhile p).drop (runLength p cs) := by rw [hcut]
    _ = cs.dropWhile p := List.drop_left

namespace Lexeme

def rule? : Lexeme → List Char → Option (Lexeme × Nat)
  | literal .. | openLiteral => literal?
  | word => word?
  | numeral => fun cs => (Numeral.length? cs).map (numeral, ·)
  | lineEnd => fun cs => (lineEndLength? cs).map (lineEnd, ·)
  | trivia => trivia?
  | mark _ => mark?

variable {cs : List Char} {lexeme : Lexeme} {n : Nat}

theorem rule?_of_literal? (h : literal? cs = some (lexeme, n)) : lexeme.rule? = literal? := by
  unfold literal? at h
  split at h
  · cases h
  · split at h <;> cases h <;> rfl

theorem rule?_of_word? (h : word? cs = some (lexeme, n)) : lexeme.rule? = word? := by
  unfold word? at h
  split at h <;> cases h
  rfl

theorem rule?_of_trivia? (h : trivia? cs = some (lexeme, n)) : lexeme.rule? = trivia? := by
  unfold trivia? at h
  split at h
  · obtain ⟨m, _, hm⟩ := Option.map_eq_some_iff.1 h
    cases hm
    rfl
  · cases h
    rfl
  · split at h <;> cases h
    rfl
  · cases h

theorem rule?_of_mark? (h : mark? cs = some (lexeme, n)) : lexeme.rule? = mark? := by
  obtain ⟨m, _, hm⟩ := Option.map_eq_some_iff.1 h
  cases hm
  rfl

theorem rule?_of_ofText? (h : ofText? cs = some (lexeme, n)) :
    lexeme.rule? cs = some (lexeme, n) := by
  unfold ofText? at h
  simp only [Option.orElse_eq_orElse, Option.orElse_eq_or, Option.or_eq_some_iff] at h
  rcases h with h | ⟨_, h | ⟨_, h | ⟨_, h | ⟨_, h | ⟨_, h⟩⟩⟩⟩⟩
  · rwa [rule?_of_literal? h]
  · rwa [rule?_of_word? h]
  · obtain ⟨m, _, hm⟩ := Option.map_eq_some_iff.1 h
    cases hm
    exact h
  · obtain ⟨m, _, hm⟩ := Option.map_eq_some_iff.1 h
    cases hm
    exact h
  · rwa [rule?_of_trivia? h]
  · rwa [rule?_of_mark? h]

end Lexeme

namespace Scan

open Text

variable {file : String} {s t : Scan} {cs : List Char}

/-- A scan takes the first part of a text: a blank line with its end, the indentation of a line, or a
lexeme. -/
inductive Step (file : String) (s : Scan) (text rest : List Char) : Scan → Prop
  | blank (hfresh : s.fresh = true) (hne : text ≠ []) (hblank : isBlankLine (text ++ rest) = true)
      (htext : text = (text ++ rest).take (runLength (· != '\n') (text ++ rest) + 1)) :
      Step file s text rest (s.advance text)
  | indentation {u : Scan} (hfresh : s.fresh = true) (hblank : isBlankLine (text ++ rest) = false)
      (htext : text = (text ++ rest).takeWhile Lexeme.isIndentation)
      (hindent : (s.advance text).indentTo file (width text) = .ok u) :
      Step file s text rest { u with fresh := false }
  | lexeme {u : Scan} {lexeme : Lexeme} {n : Nat} (hfresh : s.fresh = false)
      (hlexeme : Lexeme.ofText? (text ++ rest) = some (lexeme, n))
      (htext : text = (text ++ rest).take (n - 1 + 1))
      (htake : s.takeLexeme file lexeme text = .ok u) : Step file s text rest u

theorem Step.text_ne_nil (hs : s.fresh = false) {text rest : List Char} (h : Step file s text rest t) :
    text ≠ [] := by
  rintro rfl
  cases h with
  | blank hfresh => rw [hs] at hfresh; cases hfresh
  | indentation hfresh => rw [hs] at hfresh; cases hfresh
  | lexeme _ hlexeme htext =>
    rw [List.nil_append, eq_comm, List.take_eq_nil_iff] at htext
    rw [htext.resolve_left (Nat.succ_ne_zero _)] at hlexeme
    cases hlexeme

theorem drop_of_eq_take {text rest : List Char} {n : Nat} (h : text = (text ++ rest).take n) :
    (text ++ rest).drop n = rest := by
  have hcut := List.take_append_drop n (text ++ rest)
  rw [← h] at hcut
  exact List.append_cancel_left hcut

theorem Step.run {text rest : List Char} (h : Step file s text rest t) :
    run file s (text ++ rest) = run file t rest := by
  have hcons {n : Nat} (hne : text ≠ []) (htext : text = (text ++ rest).take (n + 1)) :
      ∃ c cs, text ++ rest = c :: cs ∧ c :: cs.take n = text ∧ cs.drop n = rest := by
    obtain ⟨c, cs, hcs⟩ := List.exists_cons_of_ne_nil (List.append_ne_nil_of_left_ne_nil hne rest)
    have hdrop := drop_of_eq_take htext
    rw [hcs] at htext hdrop
    exact ⟨c, cs, hcs, htext.symm, hdrop⟩
  cases h with
  | blank hfresh hne hblank htext =>
    obtain ⟨c, cs, hcs, htake, hdrop⟩ := hcons hne htext
    rw [hcs] at hblank htake hdrop ⊢
    rw [Scan.run, dif_pos hfresh, if_pos hblank]
    simp only [htake, hdrop]
  | indentation hfresh hblank htext hindent =>
    rw [← take_runLength] at htext
    have hdrop := drop_of_eq_take htext
    cases hcs : text ++ rest with
    | nil =>
      rw [hcs] at hblank
      cases hblank
    | cons c cs =>
      rw [hcs] at hblank htext hdrop
      rw [Scan.run, dif_pos hfresh, if_neg (Bool.eq_false_iff.1 hblank)]
      simp only [← htext, hdrop, hindent]
  | lexeme hfresh hlexeme htext htake =>
    have hne := Step.text_ne_nil hfresh (.lexeme hfresh hlexeme htext htake)
    obtain ⟨c, cs, hcs, htaken, hdrop⟩ := hcons hne htext
    rw [hcs] at hlexeme ⊢
    rw [Scan.run, dif_neg (by rw [hfresh]; exact Bool.false_ne_true), hlexeme]
    simp only [htaken, hdrop, htake]

theorem Step.of_lexeme {text rest : List Char} {lexeme : Lexeme} (hs : s.fresh = false) (hne : text ≠ [])
    (hlexeme : Lexeme.ofText? (text ++ rest) = some (lexeme, text.length))
    (ht : s.takeLexeme file lexeme text = .ok t) : Step file s text rest t := by
  refine .lexeme hs hlexeme ?_ ht
  rw [Nat.sub_add_cancel (List.length_pos_iff.2 hne), List.take_left]

@[simp]
theorem place_dedent (s : Scan) (n : Nat) : (s.dedent file n).place = s.place := by
  induction n generalizing s with
  | zero => rfl
  | succ n ih => exact ih _

theorem position_of_indentTo {w : Nat} {fault : Fault} (h : s.indentTo file w = .error fault) :
    fault.position = s.place.position file := by
  unfold indentTo at h
  split at h
  · cases h
  · simp only at h
    split at h
    · cases h
    · cases h
      exact congrArg (Place.position · file) (place_dedent s _)

theorem position_of_takeLexeme {lexeme : Lexeme} {text : List Char} {fault : Fault}
    (h : s.takeLexeme file lexeme text = .error fault) : fault.position = s.place.position file := by
  unfold takeLexeme at h
  cases lexeme with
  | openLiteral => cases h; rfl
  | lineEnd =>
    simp only at h
    split at h <;> cases h
  | _ => cases h

/-- What each step keeps holds when the text is used up; and when there is a fault, it is where a text
was taken to. -/
theorem run_of_steps (file : String) (s : Scan) (cs : List Char) {P : Scan → List Char → Prop}
    (step : ∀ s u text rest, P s (text ++ rest) → Step file s text rest u → P u rest) (hs : P s cs) :
    match run file s cs with
    | .ok t => P t []
    | .error fault => ∃ u text rest, P u (text ++ rest) ∧
        fault.position = (u.place.advance text).position file := by
  induction s, cs using run.induct file with
  | case1 s =>
    rw [run]
    exact hs
  | case2 s c cs hfresh hblank n =>
    rename_i ih
    rw [run, dif_pos hfresh, if_pos hblank]
    have htext : c :: cs.take n ++ cs.drop n = c :: cs := by
      rw [List.cons_append, List.take_append_drop]
    refine ih (step s _ (c :: cs.take n) (cs.drop n) ?_ (.blank hfresh (List.cons_ne_nil _ _) ?_ ?_)) <;> rw [htext]
    · exact hs
    · exact hblank
    · rfl
  | case3 s c cs hfresh hblank n blanks fault =>
    rename_i hindent
    rw [run, dif_pos hfresh, if_neg hblank]
    simp only [n, blanks] at hindent
    simp only [hindent]
    refine ⟨s, blanks, (c :: cs).drop n, ?_, position_of_indentTo hindent⟩
    rwa [List.take_append_drop]
  | case4 s c cs hfresh hblank n blanks u hindent =>
    rename_i ih
    rw [run, dif_pos hfresh, if_neg hblank]
    simp only [n, blanks] at hindent
    simp only [hindent]
    refine ih (step s _ blanks ((c :: cs).drop n) ?_ (.indentation hfresh ?_ ?_ hindent))
    · rwa [List.take_append_drop]
    · rw [List.take_append_drop]
      exact Bool.eq_false_iff.2 hblank
    · rw [List.take_append_drop]
      exact take_runLength _ _
  | case5 s c cs hfresh hlexeme =>
    rw [run, dif_neg hfresh, hlexeme]
    exact ⟨s, [], c :: cs, hs, rfl⟩
  | case6 s c cs hfresh lexeme n hlexeme fault htake =>
    rw [run, dif_neg hfresh, hlexeme]
    simp only [htake]
    exact ⟨s, [], c :: cs, hs, position_of_takeLexeme htake⟩
  | case7 s c cs hfresh found n hlexeme u htake ih =>
    rw [run, dif_neg hfresh, hlexeme]
    simp only [htake]
    have htext : c :: cs.take (n - 1) ++ cs.drop (n - 1) = c :: cs := by
      rw [List.cons_append, List.take_append_drop]
    refine ih (step s _ (c :: cs.take (n - 1)) (cs.drop (n - 1)) ?_
      (.lexeme (n := n) (Bool.eq_false_iff.2 hfresh) ?_ ?_ htake)) <;> rw [htext]
    · exact hs
    · exact hlexeme
    · rfl

theorem run_keeps {P : Scan → List Char → Prop}
    (blank : ∀ s text rest, s.fresh = true → P s (text ++ rest) → P (s.advance text) rest)
    (indentation : ∀ s u text rest w, s.fresh = true → P s (text ++ rest) →
      (s.advance text).indentTo file w = .ok u → P { u with fresh := false } rest)
    (lexeme : ∀ s u text rest lexeme n, s.fresh = false → text ≠ [] → P s (text ++ rest) →
      Lexeme.ofText? (text ++ rest) = some (lexeme, n) → s.takeLexeme file lexeme text = .ok u → P u rest)
    (hs : P s cs) (h : run file s cs = .ok t) : P t [] := by
  have hrun := run_of_steps file s cs (fun s u text rest hs hstep => by
    cases hstep with
    | blank hfresh => exact blank s text rest hfresh hs
    | indentation hfresh _ _ hindent => exact indentation s _ text rest _ hfresh hs hindent
    | lexeme hfresh hlexeme htext htake =>
      exact lexeme s u text rest _ _ hfresh (Step.text_ne_nil hfresh (.lexeme hfresh hlexeme htext htake))
        hs hlexeme htake) hs
  rwa [h] at hrun

@[simp]
theorem place_endLine (s : Scan) (length : Nat) : (s.endLine file length).place = s.place := by
  unfold endLine
  split <;> rfl

theorem place_indentTo {w : Nat} (h : s.indentTo file w = .ok t) : t.place = s.place := by
  unfold indentTo at h
  split at h
  · cases h
    rfl
  · simp only at h
    split at h
    · cases h
      exact place_dedent s _
    · cases h

theorem place_takeLexeme {lexeme : Lexeme} {text : List Char}
    (h : s.takeLexeme file lexeme text = .ok t) : t.place = s.place.advance text := by
  unfold takeLexeme at h
  cases lexeme with
  | openLiteral => cases h
  | lineEnd =>
    simp only at h
    split at h
    · cases h
      exact congrArg (Place.advance · text) (place_endLine s _)
    · cases h
      rfl
  | _ =>
    cases h
    rfl

theorem place_run (h : run file s cs = .ok t) : t.place = s.place.advance cs := by
  have hkept := run_keeps (P := fun u rest => u.place.advance rest = s.place.advance cs)
    (fun u text rest _ hu => by
      rw [Place.advance_append] at hu
      exact hu)
    (fun u v text rest w _ hu hindent => by
      rw [Place.advance_append] at hu
      exact (congrArg (Place.advance · rest) (place_indentTo hindent)).trans hu)
    (fun u v text rest lexeme n _ _ hu _ htake => by
      rw [Place.advance_append] at hu
      exact (congrArg (Place.advance · rest) (place_takeLexeme htake)).trans hu)
    rfl h
  exact hkept

end Scan

end Credence.Token

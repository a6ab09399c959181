import Credence.Proofs.ReadingStmt

namespace Credence.Grammar

variable {α : Type}

def endMark (p : Position) : Token :=
  ⟨.eof, "EOF", ⟨p, p⟩⟩

def withEndMark (tokens : List Token) (file : String) : List Token :=
  match tokens.getLast? with
  | none => [endMark ⟨0, 1, 0, file⟩]
  | some last => if last.kind = .eof then tokens else tokens ++ [endMark last.span.stop]

/-- The tokens that are not passed yet. -/
def Cursor.tokens (c : Cursor) : List Token :=
  c.current :: c.later

theorem Cursor.tokens_ofTokens (tokens : List Token) (file : String) :
    (Cursor.ofTokens tokens file).tokens = withEndMark tokens file := by
  cases tokens with
  | nil => rfl
  | cons t ts =>
    unfold Cursor.ofTokens withEndMark
    rw [List.getLast?_eq_some_getLast (List.cons_ne_nil t ts)]
    simp only
    by_cases hk : ((t :: ts).getLast (List.cons_ne_nil t ts)).kind = .eof
    · rw [if_pos hk, if_pos (beq_iff_eq.2 hk)]
      rfl
    · rw [if_neg hk, if_neg (fun h => hk (eq_of_beq h))]
      rfl

/-- The place of reading stays in a list of tokens, and faults are where one of them starts. -/
def Reading.within (tokens : List Token) : Reading where
  inv c := c.tokens <:+ tokens
  reads _ d _ _ := d.tokens <:+ tokens
  fault f := ∃ t ∈ tokens, f.position = t.span.start
  inv_of_reads h := h
  refl h := h
  pass {c d k ns} h hne := by
    refine List.IsSuffix.trans ?_ h
    unfold Cursor.next
    cases hl : d.later with
    | nil => exact absurd hl hne
    | cons t ts =>
      change t :: ts <:+ d.current :: d.later
      exact hl ▸ List.suffix_cons _ _
  trans _ h := h
  spend h _ _ := h
  expr h _ _ _ := h
  stmt _ h _ _ := h
  fail {c} _ h := ⟨c.current, h.mem List.mem_cons_self, rfl⟩

theorem exists_run_none_of_collectUpTo {step : Parser (Option α)} {n : Nat} {c d : Cursor} {as : List α}
    (h : (collectUpTo step n).run c = .ok (as, d)) : ∃ e, step.run e = .ok (none, d) := by
  induction n generalizing c as with
  | zero => cases h
  | succ n ih =>
    unfold collectUpTo at h
    rw [StateT.run_bind] at h
    rcases hstep : step.run c with stop | ⟨_ | a, e⟩
    · rw [hstep] at h
      cases h
    · rw [hstep] at h
      cases h
      exact ⟨c, hstep⟩
    · rw [hstep] at h
      change ((collectUpTo step n).run e >>= fun r => pure (a :: r.1, r.2)) = _ at h
      cases hrest : (collectUpTo step n).run e with
      | error stop =>
        rw [hrest] at h
        cases h
      | ok r =>
        rw [hrest] at h
        cases h
        exact ih hrest

theorem ends_of_moduleBody {c d : Cursor} {body : List Stmt}
    (h : moduleBody.run c = .ok (body, d)) : d.later = [] ∨ d.kind = .eof := by
  unfold moduleBody at h
  change (collectUpTo _ c.budget).run c >>= _ = _ at h
  cases hloop : (collectUpTo _ c.budget).run c with
  | error stop =>
    rw [hloop] at h
    cases h
  | ok r =>
    rw [hloop] at h
    cases h
    obtain ⟨e, hstep⟩ := exists_run_none_of_collectUpTo hloop
    rw [StateT.run_bind, StateT.run_get, pure_bind] at hstep
    by_cases hend : (e.later.isEmpty || e.kind == .eof) = true
    · rw [if_pos hend] at hstep
      cases hstep
      simpa using hend
    -- Otherwise a line or its end is read, and the loop goes on.
    · rw [if_neg hend, StateT.run_bind] at hstep
      cases heat : (eat .newline).run e with
      | error stop =>
        rw [heat] at hstep
        cases hstep
      | ok r =>
        rw [heat] at hstep
        obtain ⟨_ | _, f⟩ := r
        · change ((line _ _).run f >>= fun r => pure (some r.1, r.2)) = _ at hstep
          cases hline : (line (expression c.budget) c.budget).run f with
          | error stop =>
            rw [hline] at hstep
            cases hstep
          | ok r =>
            rw [hline] at hstep
            cases hstep
        · cases hstep

/-- Any list of tokens is read, or there is a fault. What is read ends at an end mark of the list, and a
fault is where a token of the list starts. -/
theorem parse_total (tokens : List Token) (file : String) :
    (∃ body c, moduleBody.run (Cursor.ofTokens tokens file) = .ok (body, c) ∧
      parse tokens file = .ok ⟨body, file, ⟨⟨0, 1, 0, file⟩, c.start⟩⟩ ∧
      c.tokens <:+ withEndMark tokens file ∧ c.kind = .eof) ∨
    ∃ fault, parse tokens file = .error (.fault fault) ∧
      ∃ t ∈ withEndMark tokens file, fault.position = t.span.start := by
  have hstarts : (Reading.within (withEndMark tokens file)).Starts (Cursor.ofTokens tokens file) :=
    ⟨Cursor.tokens_ofTokens tokens file ▸ List.suffix_rfl, Cursor.ended_ofTokens tokens file⟩
  have hgives := Reading.moduleBody hstarts
  unfold Reading.Gives at hgives
  unfold parse
  cases hrun : moduleBody.run (Cursor.ofTokens tokens file) with
  | error stop =>
    rw [hrun] at hgives
    cases stop with
    | fault fault => exact .inr ⟨fault, rfl, hgives⟩
    | exhausted => exact hgives.elim
  | ok r =>
    rw [hrun] at hgives
    refine .inl ⟨r.1, r.2, rfl, rfl, hgives.nodes, ?_⟩
    rcases ends_of_moduleBody hrun with hlast | heof
    · obtain ⟨t, ht, heof⟩ := hgives.ended
      rw [hlast] at ht
      cases ht
      exact heof
    · exact heof

end Credence.Grammar

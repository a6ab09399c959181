import Credence.Proofs.Tiling

namespace Credence.Token

open Text

/-- The interval of a token takes in all bytes of the character after a text. -/
def Holds (t : Token) (before : List Char) (c : Char) : Prop :=
  t.span.start.offset ≤ byteLength before ∧ byteLength (before ++ [c]) ≤ t.span.stop.offset

/-- The character after a text lies in a piece of a source, and no interval of a token takes in a byte of
the piece. -/
structure Between (source : List Char) (tokens : List Token) (before : List Char) (c : Char)
    (head piece tail : List Char) : Prop where
  cut : source = head ++ piece ++ tail
  inside : ∃ xs ys, before = head ++ xs ∧ piece = xs ++ c :: ys
  free : ∀ t ∈ tokens, t.span.stop.offset ≤ byteLength head ∨ byteLength (head ++ piece) ≤ t.span.start.offset

/-- The character after a text lies in the interval of a token or in trivia. -/
def Kept (source : List Char) (tokens : List Token) (before : List Char) (c : Char) : Prop :=
  (∃ t ∈ tokens, t.Holds before c) ∨
    ∃ head piece tail, Between source tokens before c head piece tail ∧ IsTrivia piece tail

/-- The character after a text is a stray carriage return between tokens, or comes after one on its line. -/
def Lost (source : List Char) (tokens : List Token) (before : List Char) (c : Char) : Prop :=
  ∃ head line tail, Between source tokens before c head ('\r' :: line) tail ∧
    IsStrayReturn head (line ++ tail) ∧ '\n' ∉ line

/-- A source has a stray carriage return that is in no token. -/
def HasStrayReturn (source : List Char) (tokens : List Token) : Prop :=
  ∃ before after, source = before ++ '\r' :: after ∧ IsStrayReturn before after ∧
    ∀ t ∈ tokens, ¬t.Holds before '\r'

theorem concat_prefix_append {before text piece : List Char} {c : Char}
    (h : before ++ [c] <+: text ++ piece) :
    before ++ [c] <+: text ∨ ∃ xs ys, before = text ++ xs ∧ piece = xs ++ c :: ys := by
  obtain hfirst | hsecond := List.prefix_or_prefix_of_prefix h (List.prefix_append text piece)
  · exact .inl hfirst
  · obtain heq | ⟨xs, rfl⟩ := List.prefix_concat_iff.1 hsecond
    · exact .inl (heq ▸ List.prefix_rfl)
    · rw [List.append_assoc, List.prefix_append_right_inj] at h
      obtain ⟨ys, rfl⟩ := h
      exact .inr ⟨xs, ys, rfl, List.append_assoc ..⟩

namespace IsStrayReturn

theorem newline_mem {head xs after : List Char} (h : IsStrayReturn (head ++ '#' :: xs) after) :
    '\n' ∈ xs := by
  obtain ⟨first, blanks, hcut, hfirst, hblanks⟩ := h.first
  obtain ⟨mid, rfl, hmid⟩ | ⟨mid, -, rfl⟩ := List.append_eq_append_iff.1 hcut
  · obtain _ | ⟨m, mid⟩ := mid
    · rw [List.nil_append] at hmid
      exact absurd (hblanks '#' (hmid ▸ List.mem_cons_self)) (by decide)
    · obtain ⟨rfl, rfl⟩ := List.cons.inj hmid
      refine List.mem_append_left blanks ?_
      obtain rfl | ⟨mid, last, rfl⟩ := mid.eq_nil_or_concat'
      · exact absurd (hfirst '#' List.getLast?_concat) (by decide)
      · have hlast : last = '\n' := hfirst last (by
          rw [← List.cons_append, ← List.append_assoc]
          exact List.getLast?_concat)
        exact hlast ▸ List.mem_concat_self
  · exact absurd (hblanks '#' (List.mem_append_right mid List.mem_cons_self)) (by decide)

theorem not_isTrivia {head xs ys tail : List Char} (h : IsStrayReturn (head ++ xs) (ys ++ tail)) :
    ¬IsTrivia (xs ++ '\r' :: ys) tail := by
  have hmem : '\r' ∈ xs ++ '\r' :: ys := List.mem_append_right xs List.mem_cons_self
  intro htrivia
  generalize hpiece : xs ++ '\r' :: ys = piece at htrivia hmem
  cases htrivia with
  | blanks hblanks => exact absurd (hblanks _ hmem) (by decide)
  | lineEnd hend =>
    obtain rfl | rfl := hend
    · exact absurd hmem (by decide)
    · obtain _ | ⟨x, xs⟩ := xs
      · obtain rfl : ys = ['\n'] := (List.cons.inj hpiece).2
        exact h.lone rfl
      · have hlast : '\r' ∈ ['\n'] :=
          (List.cons.inj hpiece).2 ▸ List.mem_append_right xs List.mem_cons_self
        exact absurd hlast (by decide)
  | comment hline =>
    obtain _ | ⟨x, xs⟩ := xs
    · exact absurd (List.cons.inj hpiece).1 (by decide)
    · obtain ⟨rfl, rfl⟩ := List.cons.inj hpiece
      exact hline (List.mem_append_left _ h.newline_mem)
  | backslash => exact absurd hmem (by decide)

end IsStrayReturn

namespace Between

variable {source before head piece tail : List Char} {tokens : List Token} {c : Char}

theorem later (h : Between source tokens before c head piece tail) {t : Token}
    (ht : byteLength (head ++ piece) ≤ t.span.start.offset) :
    Between source (tokens ++ [t]) before c head piece tail := by
  refine ⟨h.cut, h.inside, fun u hu => ?_⟩
  rcases List.mem_append.1 hu with hu | hu
  · exact h.free u hu
  · rw [List.mem_singleton.1 hu]
    exact .inr ht

theorem not_holds (h : Between source tokens before c head (c :: piece) tail) {t : Token} (ht : t ∈ tokens) :
    ¬t.Holds head c := by
  rintro ⟨hstart, hstop⟩
  have hsize := c.utf8Size_pos
  have hfree := h.free t ht
  simp only [byteLength_append, byteLength_cons, byteLength_nil] at hfree hstop
  omega

end Between

theorem byteLength_le_of_prefix {xs ys : List Char} (h : xs <+: ys) : byteLength xs ≤ byteLength ys := by
  obtain ⟨zs, rfl⟩ := h
  rw [byteLength_append]
  exact Nat.le_add_right ..

namespace Tiled

variable {file : String} {source text : List Char} {tokens : List Token}

theorem holds_or_between (h : Tiled file source text tokens) {before : List Char} {c : Char}
    (hc : before ++ [c] <+: text) :
    (∃ t ∈ tokens, t.Holds before c) ∨ ∃ head piece tail, head ++ piece <+: text ∧
      Between source tokens before c head piece tail ∧
      (IsTrivia piece tail ∨
        ∃ line, piece = '\r' :: line ∧ IsStrayReturn head (line ++ tail) ∧ '\n' ∉ line) := by
  induction h with
  | start => exact absurd (List.prefix_nil.1 hc) (by simp)
  | @token text piece tokens t h ht ih =>
    obtain hc | ⟨xs, ys, rfl, rfl⟩ := concat_prefix_append hc
    · obtain ⟨u, hu, hholds⟩ | ⟨head, piece, tail, hhead, hbetween, hkind⟩ := ih hc
      · exact .inl ⟨u, List.mem_append_left _ hu, hholds⟩
      · refine .inr ⟨head, piece, tail, hhead.trans (List.prefix_append ..), hbetween.later ?_, hkind⟩
        rw [ht.start_offset]
        exact byteLength_le_of_prefix hhead
    · refine .inl ⟨t, List.mem_append_right _ (List.mem_singleton_self t), ?_, ?_⟩
      · rw [ht.start_offset]
        exact byteLength_le_of_prefix (List.prefix_append ..)
      · rw [ht.stop_offset]
        refine byteLength_le_of_prefix ⟨ys, ?_⟩
        simp
  | @trivia text tokens piece after h hsource hpiece ih =>
    obtain hc | ⟨xs, ys, hbefore, hcut⟩ := concat_prefix_append hc
    · exact (ih hc).imp_right fun ⟨head, piece, tail, hhead, hbetween⟩ =>
        ⟨head, piece, tail, hhead.trans (List.prefix_append ..), hbetween⟩
    · exact .inr ⟨text, piece, after, List.prefix_rfl,
        ⟨hsource, ⟨xs, ys, hbefore, hcut⟩, fun t ht => .inl (h.stop_le ht)⟩, .inl hpiece⟩
  | @lost text line after tokens h hsource hstray hline ih =>
    obtain hc | ⟨xs, ys, hbefore, hcut⟩ := concat_prefix_append hc
    · exact (ih hc).imp_right fun ⟨head, piece, tail, hhead, hbetween⟩ =>
        ⟨head, piece, tail, hhead.trans (List.prefix_append ..), hbetween⟩
    · exact .inr ⟨text, '\r' :: line, after, List.prefix_rfl,
        ⟨by rw [hsource, List.append_assoc, List.cons_append],
          ⟨xs, ys, hbefore, hcut⟩, fun t ht => .inl (h.stop_le ht)⟩,
        .inr ⟨line, rfl, hstray, hline⟩⟩

theorem kept_or_lost (h : Tiled file source source tokens) {before after : List Char} {c : Char}
    (hc : source = before ++ c :: after) : Kept source tokens before c ∨ Lost source tokens before c := by
  have hprefix : before ++ [c] <+: source := ⟨after, by rw [hc, List.append_assoc, List.singleton_append]⟩
  obtain hholds | ⟨head, piece, tail, -, hbetween, htrivia | ⟨line, rfl, hstray, hline⟩⟩ :=
    h.holds_or_between hprefix
  · exact .inl (.inl hholds)
  · exact .inl (.inr ⟨head, piece, tail, hbetween, htrivia⟩)
  · exact .inr ⟨head, line, tail, hbetween, hstray, hline⟩

end Tiled

theorem Lost.hasStrayReturn {source before : List Char} {tokens : List Token} {c : Char}
    (h : Lost source tokens before c) : HasStrayReturn source tokens := by
  obtain ⟨head, line, tail, hbetween, hstray, -⟩ := h
  have hcut := hbetween.cut
  rw [List.append_assoc, List.cons_append] at hcut
  have hreturn : Between source tokens head '\r' head ('\r' :: line) tail :=
    ⟨hbetween.cut, ⟨[], line, (List.append_nil _).symm, rfl⟩, hbetween.free⟩
  exact ⟨head, line ++ tail, hcut, hstray, fun t => hreturn.not_holds⟩

theorem not_kept_of_isStrayReturn {source before after : List Char} {tokens : List Token}
    (hsource : source = before ++ '\r' :: after) (hstray : IsStrayReturn before after)
    (hholds : ∀ t ∈ tokens, ¬t.Holds before '\r') : ¬Kept source tokens before '\r' := by
  rintro (⟨t, ht, hheld⟩ | ⟨head, piece, tail, ⟨hcut, ⟨xs, ys, rfl, rfl⟩, -⟩, htrivia⟩)
  · exact hholds t ht hheld
  · have hafter : after = ys ++ tail := by
      rw [hsource] at hcut
      simpa using hcut
    exact (hafter ▸ hstray).not_isTrivia htrivia

/-- What becomes of the characters of a source that is cut into tokens: each is in a token, is trivia, or is
lost behind a stray carriage return. So nothing is lost but where there is such a return. -/
theorem kept_iff_of_tokenize {source file : String} {tokens : List Token}
    (h : tokenize source file = .ok tokens) :
    (∀ before c after, source.toList = before ++ c :: after →
      Kept source.toList tokens before c ∨ Lost source.toList tokens before c) ∧
    ((∀ before c after, source.toList = before ++ c :: after → Kept source.toList tokens before c) ↔
      ¬HasStrayReturn source.toList tokens) := by
  have hsplit : ∀ before c after, source.toList = before ++ c :: after →
      Kept source.toList tokens before c ∨ Lost source.toList tokens before c :=
    fun _ _ _ => (tiled_of_tokenize h).kept_or_lost
  refine ⟨hsplit, fun hkept => ?_, fun hnone before c after hc => ?_⟩
  · rintro ⟨before, after, hcut, hstray, hholds⟩
    exact not_kept_of_isStrayReturn hcut hstray hholds (hkept before '\r' after hcut)
  · exact (hsplit before c after hc).resolve_right fun hlost => hnone hlost.hasStrayReturn

/-- Nothing is lost of a source without carriage returns. -/
theorem kept_iff_of_tokenize_comment :
    ∃ tokens, tokenize "é = 1  # é\n\n" "main.py" = .ok tokens ∧
      ¬HasStrayReturn "é = 1  # é\n\n".toList tokens ∧
      ∀ before c after, "é = 1  # é\n\n".toList = before ++ c :: after →
        Kept "é = 1  # é\n\n".toList tokens before c := by
  have hok : (tokenize "é = 1  # é\n\n" "main.py").toOption.isSome = true := by decide +kernel
  cases htokens : tokenize "é = 1  # é\n\n" "main.py" with
  | error fault =>
    rw [htokens] at hok
    cases hok
  | ok tokens =>
    have hnone : ¬HasStrayReturn "é = 1  # é\n\n".toList tokens := by
      rintro ⟨before, after, hcut, -⟩
      have hmem : '\r' ∈ "é = 1  # é\n\n".toList := hcut ▸ List.mem_append_right before List.mem_cons_self
      exact absurd hmem (by decide)
    exact ⟨tokens, rfl, hnone, (kept_iff_of_tokenize htokens).2.2 hnone⟩

/-- A whole statement is lost: it stands after a carriage return at the start of a source. -/
theorem not_kept_after_return :
    ∃ tokens, tokenize "\rx = 1\n" "main.py" = .ok tokens ∧
      ¬∀ before c after, "\rx = 1\n".toList = before ++ c :: after →
        Kept "\rx = 1\n".toList tokens before c := by
  have hplaces : (tokenize "\rx = 1\n" "main.py").toOption.map
      (fun tokens => tokens.map fun t => t.span.start.offset) = some [7] := by
    decide +kernel
  cases htokens : tokenize "\rx = 1\n" "main.py" with
  | error fault =>
    rw [htokens] at hplaces
    cases hplaces
  | ok tokens =>
    rw [htokens] at hplaces
    have hplaces : tokens.map (fun t => t.span.start.offset) = [7] := Option.some.inj hplaces
    refine ⟨tokens, rfl, fun hall => ?_⟩
    -- The name after the carriage return is in no token, and it is no trivia.
    obtain ⟨t, ht, hstart, -⟩ | ⟨head, piece, tail, ⟨hcut, ⟨xs, ys, -, hpiece⟩, -⟩, htrivia⟩ :=
      hall ['\r'] 'x' [' ', '=', ' ', '1', '\n'] rfl
    · have hseven : t.span.start.offset ∈ [7] :=
        hplaces ▸ List.mem_map_of_mem (f := fun t : Token => t.span.start.offset) ht
      rw [List.mem_singleton.1 hseven] at hstart
      exact absurd hstart (by decide)
    · have hmem : 'x' ∈ piece := hpiece ▸ List.mem_append_right xs List.mem_cons_self
      cases htrivia with
      | blanks hblanks => exact absurd (hblanks 'x' hmem) (by decide)
      | lineEnd hend => obtain rfl | rfl := hend <;> exact absurd hmem (by decide)
      | comment =>
        have hmark : '#' ∈ "\rx = 1\n".toList :=
          hcut ▸ List.mem_append_left tail (List.mem_append_right head List.mem_cons_self)
        exact absurd hmark (by decide)
      | backslash => exact absurd hmem (by decide)

end Credence.Token

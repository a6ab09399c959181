import Credence.Proofs.Annotation

namespace Credence

open Check

def ExprForm.text? {ε : Type} : ExprForm ε → Option String
  | .str text | .bytes text | .formatStr text => some text
  | _ => none

theorem ExprForm.own_of_text? {ε : Type} {f : ExprForm ε} {text : String} (h : f.text? = some text) :
    f.own = text.length + 1 := by
  unfold text? at h
  split at h <;> cases h <;> rfl

namespace Grammar

/-- Between two places trees were read in which no node by itself, at any depth, weighs more than the tokens
from the first place on pay. -/
structure Cursor.Affords (c d : Cursor) (k : Nat) (ns : List Node) : Prop where
  cost : d.cost + k ≤ c.cost
  own : ∀ e, .expr e ∈ ns.flatMap Node.nodes → e.form.own ≤ c.cost

namespace Cursor.Affords

variable {c d e : Cursor} {k l : Nat} {ns ms : List Node}

theorem refl (c : Cursor) : c.Affords c 0 [] :=
  ⟨Nat.le_refl _, nofun⟩

theorem pass (h : c.Affords d k ns) (hne : d.later ≠ []) :
    c.Affords d.next (k + d.current.credit) ns := by
  have hnext := cost_next hne
  have hcost := h.cost
  exact ⟨by omega, h.own⟩

theorem trans (h : c.Affords d k ns) (h' : d.Affords e l ms) : c.Affords e (k + l) (ns ++ ms) := by
  have hcost := h.cost
  have hcost' := h'.cost
  refine ⟨by omega, fun x hx => ?_⟩
  rw [List.flatMap_append] at hx
  rcases List.mem_append.1 hx with hx | hx
  · exact h.own x hx
  · have := h'.own x hx
    omega

theorem spend (h : c.Affords d k ns) (hl : l ≤ k) (hms : ms.Sublist ns) : c.Affords d l ms := by
  refine ⟨Nat.le_trans (Nat.add_le_add_left hl _) h.cost, fun x hx => ?_⟩
  exact h.own x ((hms.flatMap _).subset hx)

theorem expr {form : ExprForm Expr} {span : Span} (h : c.Affords d (k + form.own) ns)
    (hms : Unwraps ns ms) (hparts : (form.parts.map Node.expr).Subperm ms) :
    c.Affords { d with nextId := d.nextId + 1 } k [.expr ⟨d.nextId, form, span⟩] := by
  have hcost : d.cost + (k + form.own) ≤ c.cost := h.cost
  have hsame : Cursor.cost { d with nextId := d.nextId + 1 } = d.cost := rfl
  refine ⟨by omega, fun x hx => ?_⟩
  rw [List.flatMap_singleton, Node.nodes_eq] at hx
  rcases List.mem_cons.1 hx with hx | hx
  · cases hx
    change form.own ≤ c.cost
    omega
  · exact h.own x (hms.mem_nodes hparts hx)

theorem stmt {form : StmtForm Stmt} (span : Span) (h : c.Affords d k ns) (hms : Unwraps ns ms)
    (hparts : form.parts.Subperm ms) :
    c.Affords { d with nextId := d.nextId + 1 } k [.stmt ⟨d.nextId, form, span⟩] := by
  refine ⟨h.cost, fun x hx => ?_⟩
  rw [List.flatMap_singleton, Node.nodes_eq] at hx
  rcases List.mem_cons.1 hx with hx | hx
  · cases hx
  · exact h.own x (hms.mem_nodes hparts hx)

end Cursor.Affords

def Reading.affords : Reading where
  inv _ := True
  reads := Cursor.Affords
  fault _ := True
  inv_of_reads _ := trivial
  refl _ := Cursor.Affords.refl _
  pass := Cursor.Affords.pass
  trans := Cursor.Affords.trans
  spend := Cursor.Affords.spend
  expr h hms hparts _ := h.expr hms hparts
  stmt := Cursor.Affords.stmt
  fail _ _ := trivial

end Grammar

theorem length_lt_of_ofSource {text file : String} {m : Module} (h : Module.ofSource text file = .ok m)
    {e : Expr} (he : .expr e ∈ bodyNodes m.body) {value : String} (hvalue : e.form.text? = some value) :
    value.length < text.length := by
  obtain ⟨tokens, htokens, hm⟩ := exists_parse_of_ofSource h
  have hparse := Grammar.Reading.affords.parse tokens file trivial
  rw [hm] at hparse
  obtain ⟨d, _, haffords⟩ := hparse
  rw [Node.bodyNodes_eq] at he
  have hown : e.form.own ≤ _ := haffords.own e he
  rw [Grammar.Cursor.cost_ofTokens, ExprForm.own_of_text? hvalue] at hown
  have := Token.credits_tokenize_le htokens
  omega

namespace Discipline

def answering : Discipline where
  inv _ := True
  le _ _ := True
  stop _ := False
  le_refl _ := trivial
  le_trans _ _ := trivial

variable {c : Context}

theorem Holds.exists_ok {α : Type} {x y : CheckM α} (h : answering.Holds c x y) (s : Session) :
    ∃ a t, x.outcome c s = (.ok a, t) ∧ y.outcome c s = (.ok a, t) := by
  obtain ⟨hsame, _, hstop⟩ := h s trivial
  rcases hx : x.outcome c s with ⟨a | a, t⟩
  · rw [hx] at hstop
    exact absurd (hstop a rfl) id
  · rw [hx] at hsame
    exact ⟨a, t, rfl, hsame.symm⟩

theorem answering_standIn (id : ClassId) :
    answering.Holds c (CheckM.standIn id) (CheckM.standIn id) := by
  refine Holds.get.bind fun s => ?_
  split
  · exact .pure _
  · refine Holds.bind (.modifyGet fun s _ => ⟨trivial, trivial⟩) fun object => ?_
    exact Holds.bind (.modify fun s _ => ⟨trivial, trivial⟩) fun _ => .pure _

theorem answering_namedAscription (name : String) :
    answering.Holds c (Check.namedAscription name) (Check.namedAscription name) :=
  namedAscription (fun _ _ => .modifyGet fun _ _ => ⟨trivial, trivial⟩) answering_standIn name

theorem answering_ascription (e : Expr) :
    answering.Holds c (Check.ascription e) (Check.ascriptionOver Check.ascription e) := by
  have hfuel := weight_lt_fuel e
  -- One step goes to the annotation itself, and what is left is enough for each one in it.
  obtain ⟨n, hn⟩ : ∃ n, 16 * (e.weight + 2) * (e.weight + 2) = n + 1 :=
    Nat.exists_eq_succ_of_ne_zero (Nat.ne_of_gt (Nat.zero_lt_of_lt hfuel))
  have hstep : Check.ascription e = Check.ascriptionOver (Check.ascriptionUpTo n) e := by
    unfold Check.ascription
    simp only [hn]
    rfl
  rw [hstep]
  exact ascriptionOver_of_weight answering_namedAscription fun k hk =>
    ascriptionUpTo answering_namedAscription (by omega) (weight_lt_fuel k)

end Discipline

/-- Annotations come to an end. The text of each literal that is read in a text, literals side by side put
together, is shorter than that text. What an annotation declares is therefore what it declares over the
annotations in it, found in the same way and with no bound; it is found in every session, and each bound
beyond the weight of the annotation gives the same. -/
theorem ascription_ends :
    (∀ {text file : String} {m : Module}, Module.ofSource text file = .ok m →
      ∀ e, .expr e ∈ bodyNodes m.body → ∀ value, e.form.text? = some value →
        value.length < text.length) ∧
    (∀ e, ascription e = ascriptionOver ascription e) ∧
    ∀ (e : Expr) (c : Context) (s : Session), ∃ t s', (ascription e).outcome c s = (.ok t, s') ∧
      ∀ n, e.weight < n → (ascriptionUpTo n e).outcome c s = (.ok t, s') := by
  refine ⟨fun h e he value hvalue => length_lt_of_ofSource h he hvalue, fun e => ?_, fun e c s => ?_⟩
  · funext c
    funext s
    exact (Discipline.answering_ascription e s trivial).same
  · obtain ⟨t, s', hend, -⟩ := (Discipline.answering_ascription e).exists_ok s
    refine ⟨t, s', hend, fun n hn => ?_⟩
    have hsame : Discipline.answering.Holds c (ascriptionUpTo n e) (ascription e) :=
      Discipline.ascriptionUpTo Discipline.answering_namedAscription hn (Discipline.weight_lt_fuel e)
    exact (hsame s trivial).same.trans hend

/-- Two literals side by side are one, with a text that has a literal of its own. -/
theorem ascription_ends_quoted :
    ∃ m e, Module.ofSource "'List[\"int\"]' ' | None'" "<annotation>" = .ok m ∧
      .expr e ∈ bodyNodes m.body ∧ e.form.text? = some "List[\"int\"] | None" ∧
      "List[\"int\"] | None".length < "'List[\"int\"]' ' | None'".length ∧
      ascription e = ascriptionOver ascription e ∧
      ∀ (c : Context) (s : Session), ∃ t s', (ascription e).outcome c s = (.ok t, s') ∧
        ∀ n, e.weight < n → (ascriptionUpTo n e).outcome c s = (.ok t, s') := by
  have hread : (Module.ofSource "'List[\"int\"]' ' | None'" "<annotation>").toOption.map
      (fun m => m.body.map fun s => s.form.expressions.map fun e => e.form.text?) =
      some [[some "List[\"int\"] | None"]] := by
    decide +kernel
  cases hm : Module.ofSource "'List[\"int\"]' ' | None'" "<annotation>" with
  | error stop =>
    rw [hm] at hread
    cases hread
  | ok m =>
    rw [hm] at hread
    have hread : m.body.map (fun s => s.form.expressions.map fun e => e.form.text?) =
        [[some "List[\"int\"] | None"]] := Option.some.inj hread
    obtain ⟨s, hbody, htexts⟩ := List.map_eq_singleton_iff.1 hread
    obtain ⟨e, hform, htext⟩ := List.map_eq_singleton_iff.1 htexts
    have hpart : .expr e ∈ s.form.parts := by
      refine List.mem_append_left _ (List.mem_map_of_mem (List.mem_append_left _ ?_))
      rw [hform]
      exact List.mem_singleton_self e
    have he : .expr e ∈ bodyNodes m.body :=
      Node.mem_bodyNodes_of_mem_parts (hbody ▸ List.mem_singleton_self s) hpart
    exact ⟨m, e, rfl, he, htext, ascription_ends.1 hm e he _ htext, ascription_ends.2.1 e,
      ascription_ends.2.2 e⟩

end Credence

import Credence.Grammar.Source

namespace Credence.Grammar

open Token (Kind)

variable {α β : Type}

/-- What holds of each result that a parser gives at a place. -/
def Leaves (x : Parser α) (c : Cursor) (Q : α → Cursor → Prop) : Prop :=
  ∀ a d, x.run c = .ok (a, d) → Q a d

namespace Leaves

variable {x : Parser α} {c : Cursor} {Q : α → Cursor → Prop}

theorem pure {a : α} (h : Q a c) : Leaves (Pure.pure a) c Q := by
  intro b d hrun
  cases hrun
  exact h

theorem bind {y : α → Parser β} {R : β → Cursor → Prop} (hx : Leaves x c Q)
    (hy : ∀ a d, Q a d → Leaves (y a) d R) : Leaves (x >>= y) c R := by
  intro b e hrun
  rw [StateT.run_bind] at hrun
  cases hfirst : x.run c with
  | error stop =>
    rw [hfirst] at hrun
    cases hrun
  | ok r =>
    rw [hfirst] at hrun
    exact hy r.1 r.2 (hx r.1 r.2 hfirst) b e hrun

theorem imp {Q' : α → Cursor → Prop} (hx : Leaves x c Q) (h : ∀ a d, Q a d → Q' a d) : Leaves x c Q' :=
  fun a d hrun => h a d (hx a d hrun)

theorem run (x : Parser α) (c : Cursor) : Leaves x c fun a d => x.run c = .ok (a, d) :=
  fun _ _ hrun => hrun

theorem get : Leaves get c fun a d => a = c ∧ d = c := by
  intro a d hrun
  cases hrun
  exact ⟨rfl, rfl⟩

theorem advance : Leaves advance c fun t d => t = c.current ∧ d = c.next := by
  intro t d hrun
  cases hrun
  exact ⟨rfl, rfl⟩

theorem at? (k : Kind) : Leaves (at? k) c fun b d => b = (c.kind == k) ∧ d = c := by
  intro b d hrun
  cases hrun
  exact ⟨rfl, rfl⟩

theorem ite_at {k : Kind} {x y : Parser β} {R : β → Cursor → Prop} (hx : c.kind = k → Leaves x c R)
    (hy : c.kind ≠ k → Leaves y c R) : Leaves (Grammar.at? k >>= fun b => if b then x else y) c R := by
  refine (at? k).bind fun b d ⟨hb, hd⟩ => ?_
  rw [hb, hd]
  by_cases hk : c.kind = k
  · rw [if_pos (beq_iff_eq.2 hk)]
    exact hx hk
  · rw [if_neg (mt beq_iff_eq.1 hk)]
    exact hy hk

theorem ite_eat {k : Kind} {x y : Parser β} {R : β → Cursor → Prop} (hx : c.kind = k → Leaves x c.next R)
    (hy : c.kind ≠ k → Leaves y c R) : Leaves (eat k >>= fun b => if b then x else y) c R := by
  have heat : Leaves (eat k) c fun b d => b = true ∧ c.kind = k ∧ d = c.next ∨ b = false ∧ c.kind ≠ k ∧ d = c :=
    ite_at (fun hk => advance.bind fun _ _ ⟨_, hd⟩ => pure (.inl ⟨rfl, hk, hd⟩))
      fun hk => pure (.inr ⟨rfl, hk, rfl⟩)
  refine heat.bind fun b d h => ?_
  obtain ⟨rfl, hk, rfl⟩ | ⟨rfl, hk, rfl⟩ := h
  · exact hx hk
  · exact hy hk

theorem expectOr (k : Kind) (detail : String) :
    Leaves (expectOr k detail) c fun t d => c.kind = k ∧ t = c.current ∧ d = c.next := by
  refine ite_at (fun hk => ?_) fun _ _ _ hrun => nomatch hrun
  exact advance.imp fun _ _ h => ⟨hk, h⟩

theorem expect (k : Kind) : Leaves (expect k) c fun t d => c.kind = k ∧ t = c.current ∧ d = c.next :=
  expectOr k _

end Leaves

section Written

variable (sub : Sub) (close : Kind) (annotated : Bool)

inductive WritesParam (c : Cursor) : Param Expr → Cursor → Prop
  | bare (hname : c.kind = .identifier) (hbare : annotated = true → c.next.kind ≠ .colon) :
    WritesParam c ⟨c.current.value, none, c.current.span⟩ c.next
  | ascribed {t : Expr} {d : Cursor} (hname : c.kind = .identifier) (hallowed : annotated = true)
    (hcolon : c.next.kind = .colon) (ht : (sub .lowest).run c.next.next = .ok (t, d)) :
    WritesParam c ⟨c.current.value, some t, c.current.span⟩ d

/-- An entry is written between two places. A plain parameter has the default that is written after it. -/
inductive WritesEntry (c : Cursor) : ParamEntry → Cursor → Prop
  | slash (h : c.kind = .slash) : WritesEntry c .slash c.next
  | mapping {p : Param Expr} {d : Cursor} (h : c.kind = .doubleStar) (hp : WritesParam sub annotated c.next p d) :
    WritesEntry c (.mapping p) d
  | bareStar (h : c.kind = .star) (hnext : c.next.kind ≠ .identifier) : WritesEntry c (.star none) c.next
  | star {p : Param Expr} {d : Cursor} (h : c.kind = .star) (hp : WritesParam sub annotated c.next p d) :
    WritesEntry c (.star (some p)) d
  | plain {p : Param Expr} {d : Cursor} (hp : WritesParam sub annotated c p d) (hd : d.kind ≠ .assignment) :
    WritesEntry c (.plain p none) d
  | default {p : Param Expr} {d e : Cursor} {value : Expr} (hp : WritesParam sub annotated c p d)
    (hd : d.kind = .assignment) (hvalue : (sub .lowest).run d.next = .ok (value, e)) :
    WritesEntry c (.plain p (some value)) e

/-- Entries are written between two places, with commas between them. -/
inductive WritesEntries : Cursor → List ParamEntry → Cursor → Prop
  | done {c : Cursor} (hc : c.kind = close) : WritesEntries c [] c
  | last {c d : Cursor} {entry : ParamEntry} (hc : c.kind ≠ close) (h : WritesEntry sub annotated c entry d)
    (hd : d.kind ≠ .comma) : WritesEntries c [entry] d
  | more {c d e : Cursor} {entry : ParamEntry} {entries : List ParamEntry} (hc : c.kind ≠ close)
    (h : WritesEntry sub annotated c entry d) (hd : d.kind = .comma) (hrest : WritesEntries d.next entries e) :
    WritesEntries c (entry :: entries) e

end Written

section Parameters

variable {sub : Sub} {close : Kind} {annotated : Bool} {c : Cursor}

theorem leaves_param : Leaves (param sub annotated) c (WritesParam sub annotated c) := by
  refine (Leaves.expect _).bind fun token d ⟨hname, htoken, hd⟩ => ?_
  subst htoken hd
  cases annotated with
  | false => exact Leaves.pure (.bare hname nofun)
  | true =>
    let named (t : Option Expr) : Param Expr := ⟨c.current.value, t, c.current.span⟩
    change Leaves (eat .colon >>= fun b => if b then sub .lowest >>= fun t => Pure.pure (named (some t))
      else Pure.pure (named none)) c.next _
    refine Leaves.ite_eat (fun hcolon => ?_) fun hcolon => Leaves.pure (.bare hname fun _ => hcolon)
    exact (Leaves.run _ _).bind fun t d ht => Leaves.pure (.ascribed hname rfl hcolon ht)

theorem leaves_paramEntry : Leaves (paramEntry sub annotated) c (WritesEntry sub annotated c) := by
  refine Leaves.ite_eat (fun h => Leaves.pure (.slash h)) fun _ => ?_
  refine Leaves.ite_eat (fun h => leaves_param.bind fun p d hp => Leaves.pure (.mapping h hp)) fun _ => ?_
  refine Leaves.ite_eat (fun h => ?_) fun _ => ?_
  · exact Leaves.ite_at (fun _ => leaves_param.bind fun p d hp => Leaves.pure (.star h hp))
      fun hnext => Leaves.pure (.bareStar h hnext)
  · refine leaves_param.bind fun p d hp => Leaves.ite_eat (fun hd => ?_) fun hd => Leaves.pure (.plain hp hd)
    exact (Leaves.run _ _).bind fun value e hvalue => Leaves.pure (.default hp hd hvalue)

theorem leaves_commaListUpTo (n : Nat) :
    Leaves (commaListUpTo (at? close) (paramEntry sub annotated) n) c (WritesEntries sub close annotated c) := by
  induction n generalizing c with
  | zero => exact fun _ _ hrun => nomatch hrun
  | succ n ih =>
    refine Leaves.ite_at (fun hc => Leaves.pure (.done hc)) fun hc => ?_
    refine leaves_paramEntry.bind fun entry d h => ?_
    refine Leaves.ite_eat (fun hd => ?_) fun hd => Leaves.pure (.last hc h hd)
    exact ih.bind fun entries e hrest => Leaves.pure (.more hc h hd hrest)

theorem leaves_commaList :
    Leaves (commaList (at? close) (paramEntry sub annotated)) c (WritesEntries sub close annotated c) :=
  Leaves.get.bind fun _ _ ⟨_, hd⟩ => hd ▸ leaves_commaListUpTo _

theorem leaves_parameters : Leaves (parameters sub close annotated) c fun ps d =>
    ∃ entries, WritesEntries sub close annotated c entries d ∧ ps = (entries.foldl addEntry ({}, false)).1 :=
  leaves_commaList.bind fun entries _ h => Leaves.pure ⟨entries, h, rfl⟩

end Parameters

/-- The positional parameters with their defaults, as they are written: those before any star. -/
def writtenArgs : List ParamEntry → List (Param Expr × Option Expr)
  | [] => []
  | .plain p value :: entries => (p, value) :: writtenArgs entries
  | .star _ :: _ => []
  | .slash :: entries | .mapping _ :: entries => writtenArgs entries

theorem foldl_addEntry_keywordOnly (entries : List ParamEntry) (ps : Params Expr) :
    (entries.foldl addEntry (ps, true)).1.args = ps.args ∧
      (entries.foldl addEntry (ps, true)).1.defaults = ps.defaults := by
  induction entries generalizing ps with
  | nil => exact ⟨rfl, rfl⟩
  | cons entry entries ih => cases entry <;> exact ih _

theorem foldl_addEntry (entries : List ParamEntry) (ps : Params Expr) :
    (entries.foldl addEntry (ps, false)).1.args = ps.args ++ (writtenArgs entries).map (·.1) ∧
      (entries.foldl addEntry (ps, false)).1.defaults =
        ps.defaults ++ (writtenArgs entries).filterMap (·.2) := by
  induction entries generalizing ps with
  | nil => exact ⟨(List.append_nil _).symm, (List.append_nil _).symm⟩
  | cons entry entries ih =>
    cases entry with
    | slash => exact ih ps
    | mapping p => exact ih { ps with kwarg := some p }
    | star p =>
      obtain ⟨hargs, hdefaults⟩ := foldl_addEntry_keywordOnly entries { ps with vararg := p <|> ps.vararg }
      exact ⟨hargs.trans (List.append_nil _).symm, hdefaults.trans (List.append_nil _).symm⟩
    | plain p value =>
      obtain ⟨hargs, hdefaults⟩ := ih { ps with args := ps.args ++ [p], defaults := ps.defaults ++ value.toList }
      refine ⟨hargs.trans (List.append_assoc ..), hdefaults.trans ?_⟩
      rw [List.append_assoc, writtenArgs, List.filterMap_cons]
      cases value <;> rfl

/-- Parameters are the positional ones that are written, each with a default or without. -/
structure Aligned (ps : Params Expr) (written : List (Param Expr × Option Expr)) : Prop where
  args : ps.args = written.map (·.1)
  defaults : ps.defaults = written.filterMap (·.2)

/-- After a default, there are defaults only. -/
def HasTrailingDefaults (written : List (Param Expr × Option Expr)) : Prop :=
  written.Pairwise fun p q => p.2.isSome → q.2.isSome

theorem HasTrailingDefaults.exists_split {written : List (Param Expr × Option Expr)}
    (h : HasTrailingDefaults written) :
    ∃ first last, written = first ++ last ∧ (∀ p ∈ first, p.2 = none) ∧ ∀ p ∈ last, p.2.isSome := by
  induction written with
  | nil => exact ⟨[], [], rfl, nofun, nofun⟩
  | cons p written ih =>
    obtain ⟨hp, hrest⟩ := List.pairwise_cons.1 h
    by_cases hvalue : p.2.isSome
    · exact ⟨[], p :: written, rfl, nofun, List.forall_mem_cons.2 ⟨hvalue, fun q hq => hp q hq hvalue⟩⟩
    · obtain ⟨first, last, rfl, hfirst, hlast⟩ := ih hrest
      have hnone := Option.not_isSome_iff_eq_none.1 hvalue
      exact ⟨p :: first, last, rfl, List.forall_mem_cons.2 ⟨hnone, hfirst⟩, hlast⟩

theorem getElem?_filterMap_of_isSome {written : List (Param Expr × Option Expr)}
    (h : ∀ p ∈ written, p.2.isSome) (i : Nat) : (written.filterMap (·.2))[i]? = written[i]?.bind (·.2) := by
  induction written generalizing i with
  | nil => rfl
  | cons p written ih =>
    obtain ⟨hp, hrest⟩ := List.forall_mem_cons.1 h
    obtain ⟨value, hvalue⟩ := Option.isSome_iff_exists.1 hp
    rw [List.filterMap_cons_some hvalue]
    cases i with
    | zero => exact hvalue.symm
    | succ i => exact ih hrest i

namespace Aligned

variable {ps : Params Expr} {written : List (Param Expr × Option Expr)}

theorem defaultFor?_of_hasTrailingDefaults (h : Aligned ps written) (htrailing : HasTrailingDefaults written)
    (i : Nat) : ps.defaultFor? i = written[i]?.bind (·.2) := by
  obtain ⟨first, last, rfl, hfirst, hlast⟩ := htrailing.exists_split
  have hnone : first.filterMap (·.2) = [] := List.filterMap_eq_nil_iff.2 hfirst
  have hdefaults : ps.defaults = last.filterMap (·.2) := by
    rw [h.defaults, List.filterMap_append, hnone, List.nil_append]
  have hlength : (last.filterMap (·.2)).length = last.length := List.filterMap_length_eq_length.2 hlast
  have hstart : ps.args.length - ps.defaults.length = first.length := by
    rw [h.args, hdefaults, hlength, List.length_map, List.length_append, Nat.add_sub_cancel]
  unfold Params.defaultFor?
  simp only [hstart]
  rw [hdefaults]
  by_cases hi : first.length ≤ i
  · rw [if_pos hi, List.getElem?_append_right hi, getElem?_filterMap_of_isSome hlast]
  · have hlt := Nat.lt_of_not_le hi
    rw [if_neg hi, List.getElem?_append_left hlt, List.getElem?_eq_getElem hlt]
    exact (hfirst _ (List.getElem_mem hlt)).symm

theorem isSome_defaultFor?_iff (h : Aligned ps written) {i : Nat} (hi : i < written.length) :
    (ps.defaultFor? i).isSome ↔ ps.args.length - ps.defaults.length ≤ i := by
  have hargs : ps.args.length = written.length := by rw [h.args, List.length_map]
  have hdefaults : ps.defaults.length ≤ written.length := h.defaults ▸ List.length_filterMap_le ..
  unfold Params.defaultFor?
  simp only
  split
  · rename_i hstart
    have hlt : i - (ps.args.length - ps.defaults.length) < ps.defaults.length := by omega
    rw [List.getElem?_eq_getElem hlt]
    exact iff_of_true rfl hstart
  · rename_i hstart
    exact iff_of_false Bool.false_ne_true hstart

/-- Defaults go to their own parameters if and only if there are no parameters without after them. -/
theorem defaultFor?_iff (h : Aligned ps written) :
    (∀ i, ps.defaultFor? i = written[i]?.bind (·.2)) ↔ HasTrailingDefaults written := by
  refine ⟨fun hall => List.pairwise_iff_getElem.2 fun i j hi hj hij hvalue => ?_,
    h.defaultFor?_of_hasTrailingDefaults⟩
  have hown (k : Nat) (hk : k < written.length) :
      written[k].2.isSome ↔ ps.args.length - ps.defaults.length ≤ k := by
    rw [← h.isSome_defaultFor?_iff hk, hall k, List.getElem?_eq_getElem hk]
    rfl
  exact (hown j hj).2 (Nat.le_trans ((hown i hi).1 hvalue) (Nat.le_of_lt hij))

end Aligned

/-- Parameters are made of entries that are written from a place on: positional ones as they stand, and their
defaults go to their own parameters if and only if these are the last ones. -/
def MadeOf (sub : Sub) (close : Kind) (annotated : Bool) (c : Cursor) (ps : Params Expr) : Prop :=
  ∃ entries d, WritesEntries sub close annotated c entries d ∧ d.kind = close ∧
    ps.args = (writtenArgs entries).map (·.1) ∧
    ((∀ i, ps.defaultFor? i = (writtenArgs entries)[i]?.bind (·.2)) ↔
      HasTrailingDefaults (writtenArgs entries))

theorem leaves_parameters_expect {sub : Sub} {close : Kind} {annotated : Bool} {c : Cursor}
    {y : Params Expr → Parser α} {Q : α → Cursor → Prop}
    (hy : ∀ ps d, MadeOf sub close annotated c ps → Leaves (y ps) d Q) :
    Leaves (parameters sub close annotated >>= fun ps => expect close >>= fun _ => y ps) c Q := by
  refine leaves_parameters.bind fun ps d ⟨entries, hentries, hps⟩ => ?_
  refine (Leaves.expect close).bind fun _ e ⟨hclose, _, _⟩ => hy ps e ⟨entries, d, hentries, hclose, ?_⟩
  obtain ⟨hargs, hdefaults⟩ := foldl_addEntry entries {}
  rw [hps]
  exact ⟨hargs, Aligned.defaultFor?_iff ⟨hargs, hdefaults⟩⟩

theorem leaves_mkStmt {form : StmtForm Stmt} {span : Span} {c : Cursor} :
    Leaves (mkStmt form span) c fun s _ => s.form = form := by
  intro s d hrun
  cases hrun
  rfl

theorem leaves_exprFrom {form : ExprForm Expr} {place : Position} {c : Cursor} :
    Leaves (exprFrom place form) c fun e _ => e.form = form := by
  intro e d hrun
  cases hrun
  rfl

theorem leaves_functionStmt {sub : Sub} {line : Parser (List Stmt)} {decorators : List Expr} {isAsync : Bool}
    {c : Cursor} : Leaves (functionStmt sub line decorators isAsync) c fun s _ =>
      ∃ definition, s.form = .functionDef definition ∧
        MadeOf sub .closeParen true c.next.next.next definition.params := by
  refine (Leaves.expect .kwDef).bind fun token d ⟨_, _, hd⟩ => ?_
  subst hd
  have hname : Leaves identifier c.next fun _ d => d = c.next.next :=
    (Leaves.expect _).bind fun _ d ⟨_, _, hd⟩ => Leaves.pure hd
  refine hname.bind fun name d hd => ?_
  subst hd
  refine (Leaves.expect .openParen).bind fun _ d ⟨_, _, hd⟩ => ?_
  subst hd
  refine leaves_parameters_expect fun ps d hps => ?_
  have rest (returns : Option Expr) (e : Cursor) : Leaves (do
      let body ← block sub line
      let span := (← get).spanFrom token.span.start
      mkStmt (.functionDef ⟨name, ps, body, returns, decorators, isAsync, span⟩) span) e fun s _ =>
        ∃ definition, s.form = .functionDef definition ∧
          MadeOf sub .closeParen true c.next.next.next definition.params :=
    (Leaves.run _ _).bind fun _ _ _ => Leaves.get.bind fun _ _ _ =>
      leaves_mkStmt.imp fun _ _ hs => ⟨_, hs, hps⟩
  exact Leaves.ite_eat (fun _ => (Leaves.run _ _).bind fun returns e _ => rest (some returns) e)
    fun _ => rest none d

theorem leaves_lambda {sub : Sub} {c : Cursor} : Leaves (lambda sub) c fun e _ =>
    ∃ ps body, e.form = .lambda ps body ∧ MadeOf sub .colon false c.next ps := by
  refine Leaves.advance.bind fun token d ⟨_, hd⟩ => ?_
  subst hd
  refine leaves_parameters_expect fun ps d hps => ?_
  exact (Leaves.run _ _).bind fun body _ _ => leaves_exprFrom.imp fun e _ he => ⟨ps, body, he, hps⟩

/-- Whatever function or lambda is read, its positional parameters are those that are written, and each has the
default that is written after it if and only if no parameter without a default comes after one with a default. -/
theorem default_of_own_parameter_iff (sub : Sub) (line : Parser (List Stmt)) :
    (∀ decorators isAsync c s d, (functionStmt sub line decorators isAsync).run c = .ok (s, d) →
      ∃ definition, s.form = .functionDef definition ∧
        MadeOf sub .closeParen true c.next.next.next definition.params) ∧
    ∀ c e d, (lambda sub).run c = .ok (e, d) →
      ∃ ps body, e.form = .lambda ps body ∧ MadeOf sub .colon false c.next ps := by
  constructor
  · intro decorators isAsync c s d hrun
    exact leaves_functionStmt s d hrun
  · intro c e d hrun
    exact leaves_lambda e d hrun

def Cursor.ofSource (source : String) : Cursor :=
  .ofTokens ((Token.tokenize source "main.py").toOption.getD []) "main.py"

/-- A function and a lambda where the last positional parameters have defaults. -/
theorem default_of_own_parameter_iff_last :
    ∃ s d definition e f ps body,
      (functionStmt (expression 20) (line (expression 20) 20) [] false).run
        (.ofSource "def f(a, /, b=1, *, c): pass\n") = .ok (s, d) ∧
      s.form = .functionDef definition ∧
      MadeOf (expression 20) .closeParen true (Cursor.ofSource "def f(a, /, b=1, *, c): pass\n").next.next.next
        definition.params ∧
      (lambda (expression 20)).run (.ofSource "lambda a, b=1: a\n") = .ok (e, f) ∧
      e.form = .lambda ps body ∧
      MadeOf (expression 20) .colon false (Cursor.ofSource "lambda a, b=1: a\n").next ps := by
  have hfunction : ((functionStmt (expression 20) (line (expression 20) 20) [] false).run
      (.ofSource "def f(a, /, b=1, *, c): pass\n")).toOption.isSome = true := by
    decide +kernel
  have hlambda : ((lambda (expression 20)).run (.ofSource "lambda a, b=1: a\n")).toOption.isSome = true := by
    decide +kernel
  cases hs : (functionStmt (expression 20) (line (expression 20) 20) [] false).run
      (.ofSource "def f(a, /, b=1, *, c): pass\n") with
  | error stop =>
    rw [hs] at hfunction
    cases hfunction
  | ok r =>
    cases he : (lambda (expression 20)).run (.ofSource "lambda a, b=1: a\n") with
    | error stop =>
      rw [he] at hlambda
      cases hlambda
    | ok q =>
      obtain ⟨functions, lambdas⟩ := default_of_own_parameter_iff (expression 20) (line (expression 20) 20)
      obtain ⟨definition, hform, hmade⟩ := functions [] false _ r.1 r.2 hs
      obtain ⟨ps, body, hlambdaForm, hlambdaMade⟩ := lambdas _ q.1 q.2 he
      exact ⟨r.1, r.2, definition, q.1, q.2, ps, body, rfl, hform, hmade, rfl, hlambdaForm, hlambdaMade⟩

/-- The default that is written after one parameter goes to the next one. -/
theorem default_of_next_parameter :
    ∃ entries d, WritesEntries (expression 20) .closeParen true
        (Cursor.ofSource "def f(a=1, b): pass\n").next.next.next entries d ∧
      (parameters (expression 20) .closeParen true).run
        (Cursor.ofSource "def f(a=1, b): pass\n").next.next.next = .ok ((entries.foldl addEntry ({}, false)).1, d) ∧
      (Module.ofSource "def f(a=1, b): pass\n" "main.py").toOption.isSome ∧
      (writtenArgs entries).map (fun p => (p.1.name, p.2.isSome)) = [("a", true), ("b", false)] ∧
      ((entries.foldl addEntry ({}, false)).1.defaultFor? 0).isSome = false ∧
      ((entries.foldl addEntry ({}, false)).1.defaultFor? 1).isSome = true ∧
      ¬∀ i, (entries.foldl addEntry ({}, false)).1.defaultFor? i = (writtenArgs entries)[i]?.bind (·.2) := by
  have hfacts : (match (commaList (at? .closeParen) (paramEntry (expression 20) true)).run
        (Cursor.ofSource "def f(a=1, b): pass\n").next.next.next with
      | .error _ => none
      | .ok (entries, _) => some ((writtenArgs entries).map (fun p => (p.1.name, p.2.isSome)),
          ((entries.foldl addEntry ({}, false)).1.defaultFor? 0).isSome,
          ((entries.foldl addEntry ({}, false)).1.defaultFor? 1).isSome)) =
      some ([("a", true), ("b", false)], false, true) := by
    decide +kernel
  have haccepted : (Module.ofSource "def f(a=1, b): pass\n" "main.py").toOption.isSome = true := by
    decide +kernel
  cases hrun : (commaList (at? .closeParen) (paramEntry (expression 20) true)).run
      (Cursor.ofSource "def f(a=1, b): pass\n").next.next.next with
  | error stop =>
    rw [hrun] at hfacts
    cases hfacts
  | ok r =>
    rw [hrun] at hfacts
    obtain ⟨hwritten, hfirst, hsecond⟩ := (Prod.mk.inj (Option.some.inj hfacts)).imp_right Prod.mk.inj
    refine ⟨r.1, r.2, leaves_commaList r.1 r.2 hrun, ?_, haccepted, hwritten, hfirst, hsecond, fun hall => ?_⟩
    · unfold parameters
      rw [StateT.run_bind, hrun]
      rfl
    · have hown := congrArg Option.isSome (hall 0)
      rw [hfirst] at hown
      cases hargs : writtenArgs r.1 with
      | nil =>
        rw [hargs] at hwritten
        cases hwritten
      | cons p rest =>
        rw [hargs] at hwritten hown
        have hvalue : p.2.isSome = true := (Prod.mk.inj (List.cons.inj hwritten).1).2
        exact Bool.false_ne_true (hown.trans hvalue)

end Credence.Grammar

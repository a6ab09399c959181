import Credence.Proofs.Isolation

namespace Credence.Scopes

variable {s t : Scopes}

/-- The states to which operations lead. A scope that is put beside the others or changed as a whole must
have a parent that is there, and its way outwards must still end. -/
inductive Reachable : Scopes → Prop
  | start : Reachable {}
  | edit {s : Scopes} (e : Edit) (h : Reachable s) : Reachable (e.apply s)
  | enter {s : Scopes} (name : String) (h : Reachable s) : Reachable (s.enter name).2
  | exit {s : Scopes} (h : Reachable s) : Reachable s.exit
  | exitBranch {s : Scopes} (a : Arena) (h : Reachable s) : Reachable (s.exitBranch a)
  | enterFunction {s : Scopes} (name : String) {captured : ScopeId} (params : List (String × Ty))
    (h : Reachable s) (hcaptured : captured.val < s.all.size) :
    Reachable (s.enterFunction name captured params).2
  | exitFunction {s : Scopes} (h : Reachable s) : Reachable s.exitFunction
  | goTo {s : Scopes} {id : ScopeId} (h : Reachable s) (hid : id.val < s.all.size) :
    Reachable (s.goTo id)
  | setModule {s : Scopes} {id : ScopeId} (h : Reachable s) (hid : id.val < s.all.size) :
    Reachable (s.setModule id)
  | declareGlobal {s : Scopes} (name : String) (h : Reachable s) : Reachable (s.declareGlobal name)
  | declareNonlocal {s : Scopes} (name : String) (h : Reachable s) : Reachable (s.declareNonlocal name)
  | put {s : Scopes} {scope : Scope} (h : Reachable s) (hparent : ∀ p ∈ scope.parent, p.val < s.all.size) :
    Reachable (s.touch.alloc scope).2
  | change {s : Scopes} {id : ScopeId} {f : Scope → Scope} (h : Reachable s)
    (hparent : ∀ p ∈ (f (s.scopeAt id)).parent, p.val < s.all.size)
    (hrooted : ∀ other, (s.modifyScope id f).Rooted other) : Reachable (s.modifyScope id f).touch

theorem Edit.steady (e : Edit) (s : Scopes) : s.Steady (e.apply s) := by
  cases e with
  | add a name value confidence => exact s.steady_add a name value confidence
  | addAscribed a name ascribed value confidence =>
    exact s.steady_addAscribed a name ascribed value confidence
  | set name type confidence => exact s.steady_set name type confidence
  | narrow name type => exact s.steady_narrow name type
  | update name type => exact s.steady_update name type
  | remove name => exact s.steady_remove name

theorem Reachable.formed (h : s.Reachable) : s.Formed := by
  induction h with
  | start =>
    have hparent (id : ScopeId) : ((({} : Scopes).scopeAt id).parent) = none := by
      obtain ⟨_ | i⟩ := id <;> rfl
    refine ⟨Nat.zero_lt_one, nofun, fun id p hp => ?_, fun id => .root (hparent id)⟩
    rw [hparent id] at hp
    exact absurd hp nofun
  | edit e _ ih => exact ih.of_steady (e.steady _)
  | enter name _ ih => exact ih.enter name
  | exit _ ih => exact ih.exit
  | exitBranch a _ ih => exact ih.exitBranch a
  | enterFunction name params _ _ ih => exact ih.enterFunction name _ params
  | exitFunction _ ih => exact ih.exitFunction
  | goTo _ hid ih => exact (ih.leaveFor hid).touch
  | setModule _ _ ih => exact ⟨ih.current, ih.saved, ih.parents, fun id => (ih.rooted id).of_all rfl⟩
  | declareGlobal name _ ih => exact ih.of_steady (steady_declareGlobal _ name)
  | declareNonlocal name _ ih => exact ih.of_steady (steady_declareNonlocal _ name)
  | put _ hparent ih => exact ih.touch.alloc hparent
  | change _ hparent hrooted ih => exact (ih.change hparent hrooted).touch

theorem Formed.walk_of_push (h : s.Formed) {scope : Scope} (hall : t.all = s.all.push scope) (steps : Nat)
    {id : ScopeId} (hid : id.val < s.all.size) : t.walk steps id = s.walk steps id := by
  induction steps generalizing id with
  | zero => rfl
  | succ steps ih =>
    rw [walk, walk, scopeAt_of_push hid hall]
    split
    · rename_i parent hparent
      rw [ih (h.parents id parent hparent)]
    · rfl

theorem Formed.of_mem_chain (h : s.Formed) {start id : ScopeId} (hstart : start.val < s.all.size)
    (hid : id ∈ s.chain start) : id.val < s.all.size :=
  forall_mem_walk (P := (·.val < s.all.size)) (fun id _ => h.parents id) hstart id hid

/-- The scope to which a declaration leads gives this binding of the name. -/
def declared? (s : Scopes) (name : String) : Option Binding :=
  (s.here.redirects.get? name).bind fun id => (s.scopeAt id).bindings.get? name

/-- In a new branch a name is looked for from the scope around it outwards, whatever is declared there. -/
theorem Formed.lookup_enter (h : s.Formed) (label name : String) :
    (s.enter label).2.lookup name = s.lookupFrom s.current name := by
  let t := (s.enter label).2
  have hall : t.all = s.all.push { name := label, parent := some s.current } := rfl
  have hnew : t.scopeAt t.current = { name := label, parent := some s.current } := getD_push_size _ _
  have hchain : t.chain t.current = t.current :: s.chain s.current := by
    rw [chain, hall, Array.size_push, walk, hnew]
    exact congrArg (t.current :: ·) (h.walk_of_push hall s.all.size h.current)
  have hold : ∀ id ∈ s.chain s.current, t.scopeAt id = s.scopeAt id := fun id hid =>
    scopeAt_of_push (h.of_mem_chain h.current hid) hall
  have hdeclared : t.declared? name = none := by
    rw [declared?, here, hnew]
    rfl
  calc t.lookup name
      = t.lookupFrom t.current name := by rw [lookup, ← declared?, hdeclared]
    _ = (s.chain s.current).findSome? fun id => (t.scopeAt id).bindings.get? name := by
        rw [lookupFrom, hchain, List.findSome?_cons, hnew]
        rfl
    _ = s.lookupFrom s.current name := by
        have hsame := List.filterMap_congr fun id hid =>
          congrArg (fun scope : Scope => scope.bindings.get? name) (hold id hid)
        rw [lookupFrom, ← List.head?_filterMap, hsame, List.head?_filterMap]

/-- Entering a branch keeps what a name leads to if and only if a declaration, where it gives a binding,
gives that which the scopes outwards have as well. -/
theorem Reachable.lookup_enter_iff (h : s.Reachable) (label name : String) :
    (s.enter label).2.lookup name = s.lookup name ↔
      ∀ b, s.declared? name = some b → s.lookupFrom s.current name = some b := by
  rw [h.formed.lookup_enter, lookup, ← declared?]
  cases s.declared? name with
  | none => simp
  | some b => simp

/-- The body of a function in which a name of the module has been declared and not been bound yet. -/
def declaring : Scopes :=
  ((({} : Scopes).set "x" .int 1.0).enterFunction "f" global []).2.declareGlobal "x"

theorem reachable_declaring : declaring.Reachable :=
  .declareGlobal "x" (.enterFunction "f" [] (.edit (.set "x" .int 1.0) .start) Nat.zero_lt_one)

/-- The body has a copy of the binding of the module. -/
theorem lookup_enter_declaring :
    declaring.Reachable ∧ declaring.declared? "x" = some { type := .int, confidence := 1.0 } ∧
      (declaring.enter "<if>").2.lookup "x" = declaring.lookup "x" := by
  have hcopy : declaring.declared? "x" = declaring.lookupFrom declaring.current "x" := rfl
  refine ⟨reachable_declaring, rfl, ?_⟩
  exact (reachable_declaring.lookup_enter_iff "<if>" "x").2 fun b hb => hcopy ▸ hb

/-- Once the body has bound the name, its copy is stale, and a branch reads the copy. -/
theorem lookup_enter_stale :
    ∃ s : Scopes, s.Reachable ∧ ∃ label name, (s.enter label).2.lookup name ≠ s.lookup name := by
  refine ⟨declaring.set "x" .str 1.0, .edit (.set "x" .str 1.0) reachable_declaring, "<if>", "x", fun h => ?_⟩
  have hcopy : ((declaring.set "x" .str 1.0).enter "<if>").2.find "x" = .int := rfl
  have hbound : (declaring.set "x" .str 1.0).find "x" = .str := rfl
  rw [find, h, ← find, hbound] at hcopy
  exact absurd hcopy nofun

/-- The nearest scope strictly around a scope that binds a name; the outermost one does not count. -/
def enclosing? (s : Scopes) (id : ScopeId) (name : String) : Option ScopeId :=
  (((s.scopeAt id).parent.map s.chain).getD []).find? fun id =>
    id != global && (s.scopeAt id).bindings.contains name

theorem declareNonlocal_eq (s : Scopes) (name : String) :
    s.declareNonlocal name = ((s.enclosing? s.current name).map (s.redirect name)).getD s := by
  unfold declareNonlocal enclosing? here
  simp only
  split <;> rename_i h <;> rw [h] <;> rfl

theorem here_enterFunction (s : Scopes) (f : String) (captured : ScopeId) (params : List (String × Ty)) :
    (s.enterFunction f captured params).2.here =
      { s.scopeAt captured with
        name := f
        redirects := {}
        bindings := (s.scopeAt captured).bindings.insertMany
          (params.map fun param => (param.1, { type := param.2, confidence := 1.0 })) } :=
  getD_push_size s.all _

theorem target_declareNonlocal (hcurrent : s.current.val < s.all.size) (hnone : s.here.redirects = {})
    (name : String) :
    (s.declareNonlocal name).target name = (s.enclosing? s.current name).getD s.current := by
  rw [declareNonlocal_eq]
  cases s.enclosing? s.current name with
  | none =>
    change (s.here.redirects.get? name).getD s.current = s.current
    rw [hnone]
    rfl
  | some id =>
    change (((s.redirect name id).scopeAt s.current).redirects.get? name).getD s.current = id
    rw [redirect, scopeAt_modifyScope, if_pos ⟨rfl, hcurrent⟩, Table.get?_insert,
      if_pos (beq_self_eq_true name)]
    rfl

theorem scopeAt_declareNonlocal {id : ScopeId} (hid : id.val ≠ s.current.val) (name : String) :
    (s.declareNonlocal name).scopeAt id = s.scopeAt id := by
  rw [declareNonlocal_eq]
  cases s.enclosing? s.current name with
  | none => rfl
  | some target =>
    change (s.redirect name target).scopeAt id = s.scopeAt id
    rw [redirect, scopeAt_modifyScope, if_neg fun h => hid h.1.symm]

namespace Formed

variable (h : s.Formed)
include h

theorem chain_of_push {scope : Scope} (hall : t.all = s.all.push scope) {id : ScopeId}
    (hid : id.val < s.all.size) : t.chain id = s.chain id := by
  obtain ⟨path, hpath, hlength⟩ := (h.rooted id).outwards_within h.parents hid
  have hsize : t.all.size = s.all.size + 1 := by rw [hall, Array.size_push]
  rw [chain, hsize, h.walk_of_push hall _ hid, chain, hpath.walk hlength,
    hpath.walk (Nat.lt_succ_of_lt hlength)]

theorem enclosing?_ne {id : ScopeId} (hid : id.val < s.all.size) (name : String) :
    s.enclosing? id name ≠ some id := by
  intro heq
  have hmem := List.mem_of_find?_eq_some heq
  obtain ⟨path, hpath, hlength⟩ := (h.rooted id).outwards_within h.parents hid
  cases path with
  | nil =>
    have hparent : (s.scopeAt id).parent = none := hpath
    rw [hparent] at hmem
    exact absurd hmem List.not_mem_nil
  | cons next rest =>
    rw [hpath.1] at hmem
    have hchain : s.chain next = next :: rest := hpath.2.walk (Nat.lt_of_succ_lt hlength)
    exact (List.nodup_cons.1 hpath.nodup).1 (hchain ▸ hmem)

theorem enclosing?_enterFunction (f : String) (captured : ScopeId) (params : List (String × Ty))
    (name : String) :
    let t := (s.enterFunction f captured params).2
    t.enclosing? t.current name = s.enclosing? captured name := by
  intro t
  have hnew : (t.scopeAt t.current).parent = (s.scopeAt captured).parent := by
    rw [← here, here_enterFunction]
  rw [enclosing?, enclosing?, hnew]
  cases hparent : (s.scopeAt captured).parent with
  | none => rfl
  | some parent =>
    have hrange := h.parents captured parent hparent
    have hchain : t.chain parent = s.chain parent := h.chain_of_push rfl hrange
    have hsame : ∀ id ∈ s.chain parent, t.scopeAt id = s.scopeAt id := fun id hid =>
      scopeAt_of_push (h.of_mem_chain hrange hid) rfl
    have hfilter := List.filter_congr fun id hid => congrArg
      (fun scope : Scope => id != global && scope.bindings.contains name) (hsame id hid)
    simp only [Option.map_some, Option.getD_some]
    rw [hchain, ← List.head?_filter, hfilter, List.head?_filter]

end Formed

theorem scopeAt_bind (id : ScopeId) {other : ScopeId} (hother : other.val < s.all.size) (name : String)
    (b : Binding) : (s.bind id name b).scopeAt other =
      if id = other then { s.scopeAt other with bindings := (s.scopeAt other).bindings.insert name b }
      else s.scopeAt other := by
  change (s.modifyScope id _).scopeAt other = _
  rw [scopeAt_modifyScope]
  obtain ⟨i⟩ := id
  obtain ⟨j⟩ := other
  exact if_congr ⟨fun h => congrArg ScopeId.mk h.1, by rintro ⟨⟩; exact ⟨rfl, hother⟩⟩ rfl rfl

/-- A call binds a name that its body declares nonlocal in the nearest scope strictly around the captured
one, and nowhere if there is none. The captured scope itself is not among those around. -/
theorem Reachable.set_declareNonlocal (h : s.Reachable) (f : String) {captured : ScopeId}
    (hcaptured : captured.val < s.all.size) (params : List (String × Ty)) (name : String) (value : Ty)
    (confidence : Float) :
    let body := (s.enterFunction f captured params).2
    let t := ((body.declareNonlocal name).set name value confidence).exitFunction
    t.current = s.current ∧ t.saved = s.saved ∧ t.scopeAt captured = s.scopeAt captured ∧
      ∀ id : ScopeId, id.val < s.all.size →
        t.scopeAt id =
          if s.enclosing? captured name = some id then
            { s.scopeAt id with
              bindings := (s.scopeAt id).bindings.insert name { type := value, confidence } }
          else s.scopeAt id := by
  intro body t
  let declared := body.declareNonlocal name
  have hsteady : body.Steady declared := body.steady_declareNonlocal name
  have hkept : s.Kept t := Kept.exitFunction (hsteady.trans (steady_set _ name value confidence)).kept
  have htarget : declared.target name = (s.enclosing? captured name).getD body.current := by
    have hcurrent := (h.formed.enterFunction f captured params).current
    have hnone := congrArg Scope.redirects (s.here_enterFunction f captured params)
    rw [target_declareNonlocal hcurrent hnone, h.formed.enclosing?_enterFunction f captured params name]
  have hscopes (id : ScopeId) (hid : id.val < s.all.size) : t.scopeAt id =
      if s.enclosing? captured name = some id then
        { s.scopeAt id with bindings := (s.scopeAt id).bindings.insert name { type := value, confidence } }
      else s.scopeAt id := by
    have hthere : id.val < declared.all.size := by
      have hsize : declared.all.size = s.all.size + 1 := hsteady.size.trans (Array.size_push _)
      omega
    have hold : declared.scopeAt id = s.scopeAt id :=
      (scopeAt_declareNonlocal (Nat.ne_of_lt hid) name).trans (scopeAt_of_push hid rfl)
    have hleft : t.scopeAt id = (declared.set name value confidence).scopeAt id :=
      scopeAt_of_all (all_exitFunction _) id
    rw [hleft, set, htarget, scopeAt_bind _ hthere, hold]
    refine if_congr ?_ rfl rfl
    cases s.enclosing? captured name with
    | none =>
      have hne (heq : body.current = id) : False :=
        absurd (congrArg ScopeId.val heq).symm (Nat.ne_of_lt hid)
      exact iff_of_false hne (Option.some_ne_none id).symm
    | some other => exact Option.some_inj.symm
  refine ⟨hkept.current, hkept.saved, ?_, hscopes⟩
  rw [hscopes captured hcaptured, if_neg (h.formed.enclosing?_ne hcaptured name)]

/-- A class body that binds a name, with a block inside. -/
def nested : Scopes :=
  ((({} : Scopes).enter "C").2.set "x" .int 1.0).enter "<if>" |>.2

theorem reachable_nested : nested.Reachable :=
  .enter "<if>" (.edit (.set "x" .int 1.0) (.enter "C" .start))

/-- A function that captures the block binds the name in the class body. -/
theorem set_declareNonlocal_nested :
    let body := (nested.enterFunction "f" ⟨2⟩ []).2
    let t := ((body.declareNonlocal "x").set "x" .str 1.0).exitFunction
    nested.Reachable ∧ 2 < nested.all.size ∧ nested.enclosing? ⟨2⟩ "x" = some ⟨1⟩ ∧
      (t.scopeAt ⟨1⟩).bindings.get? "x" = some { type := .str, confidence := 1.0 } := by
  have hrange : 2 < nested.all.size := by decide
  have henclosing : nested.enclosing? ⟨2⟩ "x" = some ⟨1⟩ := by decide
  have hcall := reachable_nested.set_declareNonlocal "f" hrange [] "x" .str 1.0
  refine ⟨reachable_nested, hrange, henclosing, ?_⟩
  rw [hcall.2.2.2 ⟨1⟩ (by decide), if_pos henclosing]
  rfl

/-- A function whose captured scope binds the name does not reach that binding. -/
theorem nonlocal_misses_captured :
    ∃ s : Scopes, s.Reachable ∧ ∃ captured : ScopeId,
      captured ≠ global ∧ (s.scopeAt captured).bindings.contains "x" ∧
        let body := (s.enterFunction "inner" captured []).2
        let t := ((body.declareNonlocal "x").set "x" .str 1.0).exitFunction
        (t.scopeAt captured).bindings.get? "x" ≠ some { type := .str, confidence := 1.0 } := by
  refine ⟨(({} : Scopes).enterFunction "outer" global []).2.set "x" .int 1.0,
    .edit (.set "x" .int 1.0) (.enterFunction "outer" [] .start Nat.zero_lt_one), ⟨1⟩, by decide, by decide,
    fun h => ?_⟩
  exact absurd (congrArg (fun b => b.map (·.type)) h) nofun

end Credence.Scopes

import Credence.Proofs.Dotted

namespace Credence

open CheckM

/-- No module on the way of an import is on offer. -/
def ModuleCache.Misses (modules : ModuleCache) (a : Alias) : Prop :=
  ∀ k, 1 ≤ k → k ≤ (dottedParts a.name).length → modules.get? (pathOf (dottedParts a.name) k) = none

/-- The attributes that can be read on a name bound by an import of modules that are not on offer. -/
def Alias.Opens (a : Alias) (attr : String) : Prop :=
  a.asname.isSome ∨ (dottedParts a.name).length = 1 ∨ attr ∈ ["__doc__", "__name__", "__file__"] ∨
    (dottedParts a.name)[1]? = some attr

/-- Reading an attribute of a name finds it, and reports nothing. -/
def Session.ReadsOpenly (s : Session) (name attr : String) (confidence : Float) : Prop :=
  let reading := s.arena.readAttribute (s.scopes.find name) attr confidence
  reading.found = true ∧ reading.findings = []

theorem Session.ReadsOpenly.of_any {s : Session} {name : String} (h : s.scopes.Binds name .any) (attr : String)
    (confidence : Float) : s.ReadsOpenly name attr confidence := by
  rw [ReadsOpenly, h.find]
  simp [Arena.readAttribute, Ty.isUnknown, Arena.hit]

namespace Arena

variable {a b : Arena} {imported : Alias} {value : Ty}

/-- What a name stands for that was bound by an import of modules that are not on offer. -/
inductive StandsFor (a : Arena) (imported : Alias) : Ty → Prop
  | anything (h : imported.asname.isSome ∨ (dottedParts imported.name).length = 1) : StandsFor a imported .any
  | package {id : ModuleId} {first second : String} {rest : List String} (hname : imported.asname = none)
    (hparts : dottedParts imported.name = first :: second :: rest)
    (h : (a.moduleAt id).exports.keys = [second]) : StandsFor a imported (.module id)

theorem StandsFor.mono (h : a.StandsFor imported value) (hkeeps : a.KeepsModules b) :
    b.StandsFor imported value := by
  cases h with
  | anything h => exact .anything h
  | @package id first second rest hname hparts h =>
    have hthere : id.val < a.modules.size := lt_of_exports (h ▸ List.mem_singleton_self _)
    exact .package hname hparts (by rw [hkeeps.same id hthere, h])

theorem readAttribute_module (a : Arena) (id : ModuleId) (attr : String) (confidence : Float) :
    (a.readAttribute (.module id) attr confidence).found = true ∧
        (a.readAttribute (.module id) attr confidence).findings = [] ↔
      attr ∈ ["__doc__", "__name__", "__file__"] ∨ attr ∈ (a.moduleAt id).exports.keys := by
  by_cases hdoc : attr = "__doc__"
  · simp [readAttribute, Ty.isUnknown, hdoc, hit]
  rw [a.readAttribute_eq_readSingle rfl rfl hdoc, readSingle]
  by_cases hown : attr = "__name__" ∨ attr = "__file__"
  · simp [hown, hit]
  cases hexport : (a.moduleAt id).exports.get? attr with
  | some exported => simp [hdoc, hown, Table.mem_keys_of_get? hexport, hit]
  | none => simp [hdoc, hown, Table.get?_eq_none_iff.1 hexport, miss]

end Arena

theorem Session.readsOpenly_iff {s : Session} {a : Alias} {value : Ty} (hbinds : s.scopes.Binds a.boundName value)
    (h : s.arena.StandsFor a value) (attr : String) (confidence : Float) :
    s.ReadsOpenly a.boundName attr confidence ↔ a.Opens attr := by
  cases h with
  | anything h => exact iff_of_true (.of_any hbinds attr confidence) (h.imp_right .inl)
  | @package id first second rest hname hparts h =>
    rw [ReadsOpenly, hbinds.find, Arena.readAttribute_module, h, Alias.Opens, hname, hparts]
    simp [eq_comm]

namespace Check

variable {c : Context} {s : Session}

theorem outcome_moduleAt?_of_none {path : String} (name : String) (h : c.modules.get? path = none) :
    (moduleAt? path name).outcome c s = (.ok none, s) := by
  simp [moduleAt?, h]

theorem outcome_wrapModule_of_none {parts : List String} {depth : Nat}
    (h : c.modules.get? (pathOf parts depth) = none) (value : Ty) :
    (wrapModule parts value depth).outcome c s =
      (.ok (.module ⟨s.arena.modules.size⟩),
        { s with arena := (s.arena.addModule
          { name := String.intercalate "." (parts.take depth)
            exports := .ofList [(parts.getD depth "", value)] }).2 }) := by
  rw [pathOf] at h
  simp [wrapModule, outcome_moduleAt?_of_none _ h, withArena, Arena.addModule]

theorem outcome_wrapModules_of_none (parts : List String) (depth : Nat)
    (h : ∀ k, 1 ≤ k → k ≤ depth → c.modules.get? (pathOf parts k) = none) (value : Ty) :
    ∃ t bound, ((List.range' 1 depth).reverse.foldlM (wrapModule parts) value).outcome c s = (.ok bound, t) ∧
      s.Gains t ∧ (depth = 0 → bound = value) ∧
      (0 < depth → ∃ id, bound = .module id ∧ (t.arena.moduleAt id).exports.keys = [parts.getD 1 ""]) := by
  induction depth generalizing s value with
  | zero => exact ⟨s, value, rfl, .refl s, fun _ => rfl, nofun⟩
  | succ depth ih =>
    rw [List.range'_concat, List.reverse_append, List.reverse_singleton, List.singleton_append,
      List.foldlM_cons, Nat.one_mul, Nat.add_comm 1 depth, outcome_bind,
      outcome_wrapModule_of_none (h _ (Nat.succ_pos depth) (Nat.le_refl _)), andThen_ok]
    let info : ModuleInfo :=
      { name := String.intercalate "." (parts.take (depth + 1))
        exports := .ofList [(parts.getD (depth + 1) "", value)] }
    obtain ⟨t, bound, hrun, hgains, hvalue, hpackage⟩ := ih (s := { s with arena := (s.arena.addModule info).2 })
      (fun k hpos hk => h k hpos (Nat.le_succ_of_le hk)) (.module ⟨s.arena.modules.size⟩)
    have hadded := Discipline.Importing.gains_addModule s info
    refine ⟨t, bound, hrun, hadded.trans hgains, nofun, fun _ => ?_⟩
    rcases Nat.eq_zero_or_pos depth with rfl | hpos
    · obtain rfl := hvalue rfl
      have hmodule := s.arena.moduleAt_addModule info
      have hthere : s.arena.modules.size < (s.arena.addModule info).2.modules.size := by simp [Arena.addModule]
      refine ⟨⟨s.arena.modules.size⟩, rfl, ?_⟩
      rw [hgains.modules.same ⟨s.arena.modules.size⟩ hthere, hmodule]
      rfl
    · exact hpackage hpos

/-- An import of modules that are not on offer ends, and what it binds stands for them. -/
theorem outcome_importModule_of_misses {a : Alias} (h : c.modules.Misses a) :
    ∃ t value, (importModule a).outcome c s =
        (.ok ⟨⟩, { t with scopes := t.scopes.set a.boundName value 1.0 }) ∧
      s.Gains t ∧ t.arena.StandsFor a value := by
  obtain ⟨first, rest, hparts⟩ : ∃ first rest, dottedParts a.name = first :: rest := by
    obtain ⟨rest, hparts⟩ := Alias.dottedParts_eq_cons (a := { name := a.name, asname := none }) rfl
    exact ⟨_, rest, hparts⟩
  have hwhole : c.modules.get? (modulePath a.name) = none := by
    have hlast := h (dottedParts a.name).length (by simp [hparts]) (Nat.le_refl _)
    rwa [pathOf, List.take_length, intercalate_dottedParts] at hlast
  cases hname : a.asname with
  | some other =>
    refine ⟨s, .any, ?_, .refl s, .anything (.inl (by simp [hname]))⟩
    simp [importModule, outcome_moduleAt?_of_none _ hwhole, hname, modifyScopes]
  | none =>
    obtain ⟨t, bound, hrun, hgains, hvalue, hpackage⟩ := outcome_wrapModules_of_none (c := c) (s := s)
      (dottedParts a.name) ((dottedParts a.name).length - 1) (fun k hpos hk => h k hpos (by omega)) .any
    refine ⟨t, bound, ?_, hgains, ?_⟩
    · rw [importModule, outcome_bind, outcome_moduleAt?_of_none _ hwhole, andThen_ok]
      simp only [hname, Option.isSome_none, Bool.false_eq_true, if_false, Option.getD_none]
      rw [outcome_bind, hrun, andThen_ok]
      rfl
    · cases rest with
      | nil =>
        obtain rfl := hvalue (by simp [hparts])
        exact .anything (.inr (by simp [hparts]))
      | cons second rest =>
        obtain ⟨id, rfl, hkeys⟩ := hpackage (by simp [hparts])
        exact .package hname hparts (by simpa [hparts] using hkeys)

theorem outcome_forIn_of_round {α : Type} {f : α → CheckM (ForInStep PUnit)}
    {P : List α → Session → Prop} (items : List α)
    (hround : ∀ a ∈ items, ∀ done s, P done s →
      ∃ t, (f a).outcome c s = (.ok (.yield ⟨⟩), t) ∧ P (done ++ [a]) t)
    {done : List α} (h : P done s) :
    ∃ t, (forIn items PUnit.unit fun a _ => f a).outcome c s = (.ok ⟨⟩, t) ∧ P (done ++ items) t := by
  induction items generalizing done s with
  | nil => exact ⟨s, rfl, by rwa [List.append_nil]⟩
  | cons a rest ih =>
    obtain ⟨t, hrun, ht⟩ := hround a List.mem_cons_self done s h
    obtain ⟨u, hrest, hu⟩ := ih (fun b hb => hround b (List.mem_cons_of_mem a hb)) ht
    refine ⟨u, ?_, by rwa [List.append_assoc] at hu⟩
    rw [List.forIn_cons, outcome_bind, hrun, andThen_ok]
    exact hrest

/-- What imports of modules that are not on offer have led to: each name stands for the last one that bound it. -/
structure Unresolved (done : List Alias) (s : Session) : Prop where
  room : s.scopes.Room
  latest : ∀ before a after, done = before ++ a :: after → (∀ b ∈ after, b.boundName ≠ a.boundName) →
    ∃ value, s.scopes.Binds a.boundName value ∧ s.arena.StandsFor a value

theorem Unresolved.round {done : List Alias} (h : Unresolved done s) {a : Alias} (ha : c.modules.Misses a) :
    ∃ t, (do importModule a; pure (.yield ⟨⟩) : CheckM (ForInStep PUnit)).outcome c s =
        (.ok (.yield ⟨⟩), t) ∧
      Unresolved (done ++ [a]) t := by
  obtain ⟨t, bound, hrun, hgains, hbound⟩ := outcome_importModule_of_misses (s := s) ha
  have hroom := hgains.room h.room
  refine ⟨{ t with scopes := t.scopes.set a.boundName bound 1.0 },
    by rw [outcome_bind, hrun, andThen_ok, outcome_pure], hroom.set _ _ _, fun before b after hdone hafter => ?_⟩
  obtain rfl | ⟨others, hdone, hothers, hne⟩ := Alias.latest_concat hdone hafter
  · exact ⟨bound, Scopes.binds_set (hroom _) _ _, hbound⟩
  · obtain ⟨value, hbinds, hvalue⟩ := h.latest before b others hdone hothers
    exact ⟨value, (hgains.binds h.room hbinds).set_of_ne hne _ _, hvalue.mono hgains.modules⟩

/-- What the import of names from a module that is not on offer has led to: they can be anything. -/
structure OpensNames (done : List Alias) (s : Session) : Prop where
  room : s.scopes.Room
  binds : ∀ a ∈ done, a.name ≠ "*" → s.scopes.Binds a.boundName .any

theorem OpensNames.set {done : List Alias} (h : OpensNames done s) (a : Alias) (confidence : Float) :
    OpensNames (done ++ [a]) { s with scopes := s.scopes.set a.boundName .any confidence } := by
  refine ⟨h.room.set _ _ _, fun b hb hstar => ?_⟩
  by_cases hname : b.boundName = a.boundName
  · rw [hname]
    exact Scopes.binds_set (h.room _) _ _
  · have hdone : b ∈ done := by
      obtain hb | rfl := List.mem_append.1 hb |>.imp_right List.mem_singleton.1
      · exact hb
      · exact absurd rfl hname
    exact (h.binds b hdone hstar).set_of_ne hname _ _

theorem OpensNames.star {done : List Alias} (h : OpensNames done s) {a : Alias} (ha : a.name = "*") :
    OpensNames (done ++ [a]) s := by
  refine ⟨h.room, fun b hb hne => ?_⟩
  obtain hb | rfl := (List.mem_append.1 hb).imp_right List.mem_singleton.1
  · exact h.binds b hb hne
  · exact absurd ha hne

theorem OpensNames.round {done : List Alias} (h : OpensNames done s) {module : String} {a : Alias}
    (ha : c.modules.get? (modulePath module ++ "/" ++ a.name) = none) :
    ∃ t, (do
        if a.name == "*" then pure (.yield ⟨⟩)
        else
          importName module none a
          pure (.yield ⟨⟩) : CheckM (ForInStep PUnit)).outcome c s = (.ok (.yield ⟨⟩), t) ∧
      OpensNames (done ++ [a]) t := by
  split
  next hstar => exact ⟨s, rfl, h.star (beq_iff_eq.1 hstar)⟩
  next =>
    refine ⟨_, ?_, h.set a 0.0⟩
    simp [importName, outcome_moduleAt?_of_none _ ha, modifyScopes]

theorem Unresolved.checkStmt (inner : Inner) {stmt : Stmt} {names : List Alias}
    (hform : stmt.form = .importModules names) (hnames : ∀ a ∈ names, c.modules.Misses a)
    (hroom : s.scopes.Room) :
    ∃ t, (checkStmt inner stmt).outcome c s = (.ok ⟨⟩, t) ∧ Unresolved names t := by
  have hstart : Unresolved [] { s with hub := s.hub.setLine stmt.line } :=
    ⟨hroom, fun before a after hdone => absurd hdone (by simp)⟩
  unfold Check.checkStmt
  rw [hform, outcome_bind, modifyHub, outcome_modify, andThen_ok]
  simp only
  obtain ⟨t, hrun, ht⟩ := outcome_forIn_of_round (P := Unresolved) names
    (fun a ha _ _ hdone => hdone.round (hnames a ha)) hstart
  exact ⟨t, by rw [outcome_bind, hrun, andThen_ok, outcome_pure], ht⟩

theorem OpensNames.checkStmt (inner : Inner) {stmt : Stmt} {module : String} {names : List Alias} {level : Nat}
    (hform : stmt.form = .importFrom module names level) (hmodule : c.modules.get? (modulePath module) = none)
    (hnames : ∀ a ∈ names, c.modules.get? (modulePath module ++ "/" ++ a.name) = none)
    (hroom : s.scopes.Room) :
    ∃ t, (checkStmt inner stmt).outcome c s = (.ok ⟨⟩, t) ∧ OpensNames names t := by
  have hstart : OpensNames [] { s with hub := s.hub.setLine stmt.line } := ⟨hroom, nofun⟩
  unfold Check.checkStmt
  rw [hform, outcome_bind, modifyHub, outcome_modify, andThen_ok]
  simp only [importFrom]
  rw [outcome_bind, outcome_read, andThen_ok, hmodule]
  simp only
  obtain ⟨t, hrun, ht⟩ := outcome_forIn_of_round (P := OpensNames) names
    (fun a ha _ _ hdone => hdone.round (hnames a ha)) hstart
  exact ⟨t, by rw [outcome_bind, hrun, andThen_ok, outcome_pure], ht⟩

end Check

open Check

/-- An import statement all of whose modules are not on offer ends. Of the names that it binds, exactly those of
dotted names without other names are not open for all attributes. -/
theorem unavailable_import_opens_iff (c : Context) (inner : Inner) (s : Session) (hroom : s.scopes.Room)
    (stmt : Stmt) :
    (∀ names, stmt.form = .importModules names → (∀ a ∈ names, c.modules.Misses a) →
      ∃ t, (checkStmt inner stmt).outcome c s = (.ok ⟨⟩, t) ∧
        ∀ before a after, names = before ++ a :: after → (∀ b ∈ after, b.boundName ≠ a.boundName) →
          ∀ attr confidence, t.ReadsOpenly a.boundName attr confidence ↔ a.Opens attr) ∧
    (∀ module names level, stmt.form = .importFrom module names level →
      c.modules.get? (modulePath module) = none →
      (∀ a ∈ names, c.modules.get? (modulePath module ++ "/" ++ a.name) = none) →
      ∃ t, (checkStmt inner stmt).outcome c s = (.ok ⟨⟩, t) ∧
        ∀ a ∈ names, a.name ≠ "*" → ∀ attr confidence, t.ReadsOpenly a.boundName attr confidence) := by
  refine ⟨fun names hform hnames => ?_, fun module names level hform hmodule hnames => ?_⟩
  · obtain ⟨t, hrun, ht⟩ := Unresolved.checkStmt inner hform hnames hroom
    refine ⟨t, hrun, fun before a after hsplit hafter attr confidence => ?_⟩
    obtain ⟨value, hbinds, hvalue⟩ := ht.latest before a after hsplit hafter
    exact Session.readsOpenly_iff hbinds hvalue attr confidence
  · obtain ⟨t, hrun, ht⟩ := OpensNames.checkStmt inner hform hmodule hnames hroom
    exact ⟨t, hrun, fun a ha hstar attr confidence => .of_any (ht.binds a ha hstar) attr confidence⟩

def nothingOffered : Context where
  treeFile := "main.py"

def importingBelow : Stmt :=
  { id := 0, form := .importModules [⟨"a.b", none⟩], span := default }

/-- The import of the same module as a name of the package. -/
def importingName : Stmt :=
  { id := 0, form := .importFrom "a" [⟨"b", none⟩] 0, span := default }

theorem unavailable_import_opens_below :
    Session.first.scopes.Room ∧
      (∃ t, (checkStmt (innerUpTo 0) importingBelow).outcome nothingOffered Session.first = (.ok ⟨⟩, t) ∧
        t.ReadsOpenly "a" "b" 1.0) ∧
      ∃ t, (checkStmt (innerUpTo 0) importingName).outcome nothingOffered Session.first = (.ok ⟨⟩, t) ∧
        t.ReadsOpenly "b" "c" 1.0 := by
  have hroom : Session.first.scopes.Room := fun _ => Nat.zero_lt_one
  have himport := unavailable_import_opens_iff nothingOffered (innerUpTo 0) Session.first hroom
  obtain ⟨t, ht, hopens⟩ := (himport importingBelow).1 _ rfl fun _ _ _ _ _ => rfl
  obtain ⟨u, hu, hopen⟩ := (himport importingName).2 _ _ _ rfl rfl fun _ _ => rfl
  refine ⟨hroom, ⟨t, ht, ?_⟩, u, hu, hopen _ (List.mem_singleton_self _) (by decide) _ _⟩
  exact (hopens [] ⟨"a.b", none⟩ [] rfl nofun "b" 1.0).2 (.inr (.inr (.inr rfl)))

/-- The package that the import makes up has no other name, and reading one is reported. -/
theorem unavailable_import_closed :
    nothingOffered.modules.Misses ⟨"a.b", none⟩ ∧
      ∃ t, (checkStmt (innerUpTo 0) importingBelow).outcome nothingOffered Session.first = (.ok ⟨⟩, t) ∧
        let reading := t.arena.readAttribute (t.scopes.find "a") "c" 1.0
        reading.found = false ∧ reading.findings.map (·.kind) = [.attributeError] := by
  have hmisses : nothingOffered.modules.Misses ⟨"a.b", none⟩ := fun _ _ _ => rfl
  have hform : importingBelow.form = .importModules [⟨"a.b", none⟩] := rfl
  obtain ⟨t, hrun, ht⟩ := Unresolved.checkStmt (c := nothingOffered) (s := Session.first) (innerUpTo 0) hform
    (by simpa using hmisses) fun _ => Nat.zero_lt_one
  obtain ⟨value, hbinds, hvalue⟩ := ht.latest [] ⟨"a.b", none⟩ [] rfl nofun
  refine ⟨hmisses, t, hrun, ?_⟩
  cases hvalue with
  | anything h => exact absurd h (by decide)
  | @package id first second rest hname hparts hkeys =>
    obtain rfl : second = "b" := by cases hparts; rfl
    have hfind : t.scopes.find "a" = .module id := hbinds.find
    have hmissing : (t.arena.moduleAt id).exports.get? "c" = none := by
      refine Option.eq_none_iff_forall_ne_some.2 fun found hfound => ?_
      have hmem := Table.mem_keys_of_get? hfound
      rw [hkeys] at hmem
      exact absurd hmem (by decide)
    rw [hfind, Arena.readAttribute_eq_readSingle _ rfl rfl (by decide), Arena.readSingle]
    simp [hmissing, Arena.miss, Arena.missingOn]

end Credence

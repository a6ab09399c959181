import Credence.Proofs.Balance
import Credence.Proofs.Yield

namespace Credence

theorem splitAt_eq_splitOn (separator : Char) (text : List Char) :
    splitAt separator text = text.splitOn separator := by
  induction text with
  | nil => rfl
  | cons x text ih =>
    obtain ⟨part, rest, hsplit⟩ := List.exists_cons_of_ne_nil (List.splitOnP_ne_nil (· == separator) text)
    rw [splitAt, List.foldr_cons, ← splitAt, ih, List.splitOn_cons_eq_if_modifyHead, List.splitOn, hsplit]
    rfl

theorem intercalate_dottedParts (name : String) : String.intercalate "." (dottedParts name) = name := by
  have hback : (String.toList ∘ String.ofList) = id := funext fun _ => String.toList_ofList
  rw [← String.toList_inj, String.toList_intercalate, dottedParts, List.map_map, hback, List.map_id,
    splitAt_eq_splitOn]
  exact List.intercalate_splitOn '.'

theorem Alias.dottedParts_eq_cons {a : Alias} (h : a.asname = none) :
    ∃ rest, dottedParts a.name = a.boundName :: rest := by
  suffices ∀ text : List Char, ∃ rest, splitAt '.' text = text.takeWhile (· != '.') :: rest by
    obtain ⟨rest, hrest⟩ := this a.name.toList
    refine ⟨rest.map String.ofList, ?_⟩
    rw [dottedParts, hrest, boundName, h]
    rfl
  intro text
  induction text with
  | nil => exact ⟨[], rfl⟩
  | cons x text ih =>
    obtain ⟨rest, hrest⟩ := ih
    rw [splitAt_eq_splitOn] at hrest ⊢
    rw [List.splitOn_cons_eq_if_modifyHead, hrest]
    by_cases hx : x = '.'
    · subst hx
      exact ⟨text.takeWhile (· != '.') :: rest, rfl⟩
    · exact ⟨rest, by simp [hx]⟩

theorem Alias.latest_concat {done before after : List Alias} {a b : Alias}
    (hdone : done ++ [a] = before ++ b :: after) (hafter : ∀ x ∈ after, x.boundName ≠ b.boundName) :
    b = a ∨ ∃ others, done = before ++ b :: others ∧ (∀ x ∈ others, x.boundName ≠ b.boundName) ∧
      b.boundName ≠ a.boundName := by
  rcases List.eq_nil_or_concat after with rfl | ⟨others, last, rfl⟩
  · obtain ⟨-, hlast⟩ := List.append_inj' hdone rfl
    cases hlast
    exact .inl rfl
  · rw [List.concat_eq_append] at hdone hafter
    rw [← List.cons_append, ← List.append_assoc] at hdone
    obtain ⟨rfl, hlast⟩ := List.append_inj' hdone rfl
    cases hlast
    obtain ⟨hothers, hne⟩ := List.forall_mem_append.1 hafter
    exact .inr ⟨others, rfl, hothers, (hne a List.mem_cons_self).symm⟩

namespace Scopes

variable {s t : Scopes} {name : String} {type : Ty}

/-- A name is bound to a type where it is to be bound. -/
def Binds (s : Scopes) (name : String) (type : Ty) : Prop :=
  ∃ b, (s.scopeAt (s.target name)).bindings.get? name = some b ∧ b.type = type

theorem lookup_of_target {b : Binding} (hb : (s.scopeAt (s.target name)).bindings.get? name = some b) :
    s.lookup name = some b := by
  have hlt : (s.target name).val < s.all.size := by
    by_contra hlt
    rw [scopeAt, getD_of_not_lt hlt] at hb
    cases hb
  unfold lookup
  unfold target at hb hlt
  cases hredirect : s.here.redirects.get? name with
  | some id =>
    rw [hredirect, Option.getD_some] at hb
    rw [Option.bind_some, hb]
  | none =>
    rw [hredirect, Option.getD_none] at hb hlt
    obtain ⟨steps, hsteps⟩ := Nat.exists_eq_succ_of_ne_zero (Nat.ne_zero_of_lt hlt)
    rw [Option.bind_none, lookupFrom, chain, hsteps, walk, List.findSome?_cons, hb]

theorem Binds.find (h : s.Binds name type) : s.find name = type := by
  obtain ⟨b, hb, rfl⟩ := h
  rw [Scopes.find, lookup_of_target hb]
  rfl

theorem scopeAt_set (s : Scopes) (name : String) (type : Ty) (confidence : Float) (id : ScopeId) :
    (s.set name type confidence).scopeAt id =
      if (s.target name).val = id.val ∧ id.val < s.all.size then
        { s.scopeAt id with bindings := (s.scopeAt id).bindings.insert name { type, confidence } }
      else s.scopeAt id :=
  s.scopeAt_modifyScope _ id _

theorem target_set (s : Scopes) (name : String) (type : Ty) (confidence : Float) (other : String) :
    (s.set name type confidence).target other = s.target other := by
  have hhere : (s.set name type confidence).here.redirects = s.here.redirects := by
    change ((s.set name type confidence).scopeAt s.current).redirects = _
    rw [scopeAt_set]
    split <;> rfl
  rw [target, hhere]
  rfl

theorem get?_target_set (h : (s.target name).val < s.all.size) (type : Ty) (confidence : Float) :
    ((s.set name type confidence).scopeAt ((s.set name type confidence).target name)).bindings.get? name =
      some { type, confidence } := by
  rw [target_set, scopeAt_set, if_pos ⟨rfl, h⟩]
  exact (Table.get?_insert _ _ _ _).trans (if_pos (beq_self_eq_true name))

theorem get?_target_set_of_ne {other : String} (hne : name ≠ other) (t : Ty) (confidence : Float) :
    ((s.set other t confidence).scopeAt ((s.set other t confidence).target name)).bindings.get? name =
      (s.scopeAt (s.target name)).bindings.get? name := by
  rw [target_set, scopeAt_set]
  split
  · exact (Table.get?_insert _ _ _ _).trans (if_neg (by simpa using hne))
  · rfl

theorem binds_set (h : (s.target name).val < s.all.size) (type : Ty) (confidence : Float) :
    (s.set name type confidence).Binds name type :=
  ⟨{ type, confidence }, get?_target_set h type confidence, rfl⟩

theorem Binds.set_of_ne (h : s.Binds name type) {other : String} (hne : name ≠ other) (t : Ty)
    (confidence : Float) : (s.set other t confidence).Binds name type := by
  obtain ⟨b, hb, rfl⟩ := h
  exact ⟨b, (get?_target_set_of_ne hne t confidence).trans hb, rfl⟩

def Room (s : Scopes) : Prop :=
  ∀ name, (s.target name).val < s.all.size

theorem Room.current (h : s.Room) : s.current.val < s.all.size := by
  by_contra hlt
  have hhere : s.here = default := getD_of_not_lt hlt
  have htarget : s.target "" = s.current := by
    rw [target, hhere]
    rfl
  exact hlt (htarget ▸ h "")

theorem Room.set (h : s.Room) (name : String) (type : Ty) (confidence : Float) :
    (s.set name type confidence).Room := by
  intro other
  rw [target_set, (s.steady_set name type confidence).size]
  exact h other

end Scopes

namespace Arena

variable {a b c : Arena}

/-- Exports of modules lead along names from a value to another. -/
inductive Leads (a : Arena) : Ty → List String → Ty → Prop
  | stop (t : Ty) : Leads a t [] t
  | step {id : ModuleId} {part : String} {rest : List String} {t u : Ty}
    (h : (a.moduleAt id).exports.get? part = some t) (hrest : Leads a t rest u) :
    Leads a (.module id) (part :: rest) u

/-- A value is a module that exports all names of a table. -/
def Exports (a : Arena) (t : Ty) (table : SymbolTable) : Prop :=
  ∃ id, t = .module id ∧ table.bindings.keys ⊆ (a.moduleAt id).exports.keys

/-- Modules are added beside the others. -/
structure KeepsModules (a b : Arena) : Prop where
  size : a.modules.size ≤ b.modules.size
  same : ∀ id : ModuleId, id.val < a.modules.size → b.moduleAt id = a.moduleAt id

theorem KeepsModules.refl (a : Arena) : a.KeepsModules a :=
  ⟨Nat.le_refl _, fun _ _ => rfl⟩

theorem KeepsModules.trans (h : a.KeepsModules b) (k : b.KeepsModules c) : a.KeepsModules c where
  size := Nat.le_trans h.size k.size
  same id hid := (k.same id (Nat.lt_of_lt_of_le hid h.size)).trans (h.same id hid)

theorem lt_of_exports {id : ModuleId} {name : String} (h : name ∈ (a.moduleAt id).exports.keys) :
    id.val < a.modules.size := by
  by_contra hlt
  rw [moduleAt, getD_of_not_lt hlt] at h
  cases h

theorem KeepsModules.get? (h : a.KeepsModules b) {id : ModuleId} {name : String} {t : Ty}
    (ht : (a.moduleAt id).exports.get? name = some t) : (b.moduleAt id).exports.get? name = some t := by
  rw [h.same id (lt_of_exports (Table.mem_keys_of_get? ht)), ht]

theorem Leads.mono {t u : Ty} {path : List String} (hp : a.Leads t path u) (h : a.KeepsModules b) :
    b.Leads t path u := by
  induction hp with
  | stop t => exact .stop t
  | step ht _ ih => exact .step (h.get? ht) ih

theorem Exports.mono {t : Ty} {table : SymbolTable} (ht : a.Exports t table) (h : a.KeepsModules b) :
    b.Exports t table := by
  obtain ⟨id, rfl, hnames⟩ := ht
  refine ⟨id, rfl, fun name hname => ?_⟩
  rw [h.same id (lt_of_exports (hnames hname))]
  exact hnames hname

theorem Leads.foldl_component {t u : Ty} {path : List String} (h : a.Leads t path u) :
    path.foldl (fun (t, a) part => a.component t part) (t, a) = (u, a) := by
  induction h with
  | stop t => rfl
  | step ht _ ih =>
    rw [List.foldl_cons]
    simp only [component, ht, Option.getD_some]
    exact ih

theorem foldl_component_any (a : Arena) (path : List String) :
    path.foldl (fun (t, a) part => a.component t part) (Ty.any, a) = (.any, a) := by
  induction path with
  | nil => rfl
  | cons part path ih => exact ih

end Arena

def pathOf (parts : List String) (depth : Nat) : String :=
  modulePath (String.intercalate "." (parts.take depth))

/-- A value stands for the first components of a dotted name, and leads on from there. -/
structure ModuleCache.Shown (modules : ModuleCache) (parts : List String) (depth : Nat) (a : Arena)
    (value : Ty) : Prop where
  /-- The modules on the way that are on offer export all that their tables bind. -/
  leads : ∀ k, depth ≤ k → k ≤ parts.length → ∀ table, modules.get? (pathOf parts k) = some table →
    ∃ t, a.Leads value ((parts.take k).drop depth) t ∧ a.Exports t table
  /-- A module that is not on offer is made up for the next component alone. -/
  alone : depth < parts.length → modules.get? (pathOf parts depth) = none →
    ∃ id, value = .module id ∧ (a.moduleAt id).exports.keys = [parts.getD depth ""]

namespace ModuleCache.Shown

variable {modules : ModuleCache} {parts : List String} {depth : Nat} {a b : Arena} {value : Ty}

theorem mono (h : modules.Shown parts depth a value) (hkeeps : a.KeepsModules b) :
    modules.Shown parts depth b value where
  leads k hk hlength table htable := by
    obtain ⟨t, hleads, hexports⟩ := h.leads k hk hlength table htable
    exact ⟨t, hleads.mono hkeeps, hexports.mono hkeeps⟩
  alone hdepth hnone := by
    obtain ⟨id, rfl, hkeys⟩ := h.alone hdepth hnone
    have hthere : id.val < a.modules.size := Arena.lt_of_exports (hkeys ▸ List.mem_singleton_self _)
    exact ⟨id, rfl, by rw [hkeeps.same id hthere, hkeys]⟩

theorem of_value
    (h : ∀ table, modules.get? (pathOf parts parts.length) = some table → a.Exports value table) :
    modules.Shown parts parts.length a value where
  leads k hk hlength table htable := by
    obtain rfl := Nat.le_antisymm hlength hk
    refine ⟨value, ?_, h table htable⟩
    rw [List.take_length, List.drop_length]
    exact .stop value
  alone hlt := absurd hlt (Nat.lt_irrefl _)

theorem wrap (h : modules.Shown parts (depth + 1) a value) (hdepth : depth < parts.length)
    (hkeeps : a.KeepsModules b) (id : ModuleId)
    (hchild : (b.moduleAt id).exports.get? (parts.getD depth "") = some value)
    (hhere : ∀ table, modules.get? (pathOf parts depth) = some table → b.Exports (.module id) table)
    (halone : modules.get? (pathOf parts depth) = none →
      (b.moduleAt id).exports.keys = [parts.getD depth ""]) : modules.Shown parts depth b (.module id) where
  leads k hk hlength table htable := by
    rcases Nat.eq_or_lt_of_le hk with rfl | hlt
    · refine ⟨.module id, ?_, hhere table htable⟩
      rw [List.drop_eq_nil_of_le (by simp)]
      exact .stop _
    · obtain ⟨t, hleads, hexports⟩ := h.leads k hlt hlength table htable
      refine ⟨t, ?_, hexports.mono hkeeps⟩
      have hpart : depth < (parts.take k).length := by
        rw [List.length_take]
        omega
      rw [List.drop_eq_getElem_cons hpart, List.getElem_take]
      rw [List.getD_eq_getElem?_getD, List.getElem?_eq_getElem hdepth] at hchild
      exact .step hchild (hleads.mono hkeeps)
  alone _ hnone := ⟨id, rfl, halone hnone⟩

end ModuleCache.Shown

namespace Session

variable {s t u : Session}

structure Gains (s t : Session) : Prop where
  modules : s.arena.KeepsModules t.arena
  current : t.scopes.current = s.scopes.current
  size : s.scopes.all.size ≤ t.scopes.all.size
  scopes : ∀ id : ScopeId, id.val < s.scopes.all.size → t.scopes.scopeAt id = s.scopes.scopeAt id

theorem Gains.refl (s : Session) : s.Gains s :=
  ⟨.refl _, rfl, Nat.le_refl _, fun _ _ => rfl⟩

theorem Gains.trans (h : s.Gains t) (k : t.Gains u) : s.Gains u where
  modules := h.modules.trans k.modules
  current := k.current.trans h.current
  size := Nat.le_trans h.size k.size
  scopes id hid := (k.scopes id (Nat.lt_of_lt_of_le hid h.size)).trans (h.scopes id hid)

theorem Gains.target (h : s.Gains t) (hroom : s.scopes.Room) (name : String) :
    t.scopes.target name = s.scopes.target name := by
  rw [Scopes.target, Scopes.target, Scopes.here, Scopes.here, h.current, h.scopes _ hroom.current]

theorem Gains.room (h : s.Gains t) (hroom : s.scopes.Room) : t.scopes.Room := by
  intro name
  rw [h.target hroom]
  exact Nat.lt_of_lt_of_le (hroom name) h.size

theorem Gains.binds (h : s.Gains t) (hroom : s.scopes.Room) {name : String} {type : Ty}
    (hbinds : s.scopes.Binds name type) : t.scopes.Binds name type := by
  obtain ⟨b, hb, rfl⟩ := hbinds
  exact ⟨b, by rw [h.target hroom, h.scopes _ (hroom name), hb], rfl⟩

/-- The name that an import binds leads to the modules of all components. -/
def Leads (modules : ModuleCache) (s : Session) (a : Alias) : Prop :=
  ∃ value, s.scopes.Binds a.boundName value ∧ modules.Shown (dottedParts a.name) 1 s.arena value

/-- Each prefix of a dotted name resolves to a module with all names of its table, if there is one. -/
def Resolves (modules : ModuleCache) (s : Session) (name : String) : Prop :=
  ∀ start, dottedParts start <+: dottedParts name → ∀ table, modules.get? (modulePath start) = some table →
    ∃ id, (s.scopes.findDotted s.arena start).1 = .module id ∧
      table.bindings.keys ⊆ (s.arena.moduleAt id).exports.keys

theorem Leads.resolves {modules : ModuleCache} {a : Alias} (h : s.Leads modules a) (ha : a.asname = none) :
    s.Resolves modules a.name := by
  obtain ⟨value, hbinds, hshown⟩ := h
  intro start hstart table htable
  obtain ⟨rest, hparts⟩ := Alias.dottedParts_eq_cons ha
  obtain ⟨inner, hinner⟩ := Alias.dottedParts_eq_cons (a := { name := start, asname := none }) rfl
  have htake := List.prefix_iff_eq_take.1 hstart
  have hlength : 1 ≤ (dottedParts start).length := by simp [hinner]
  rw [← intercalate_dottedParts start, htake] at htable
  obtain ⟨t, hleads, id, rfl, hnames⟩ := hshown.leads _ hlength hstart.length_le table htable
  rw [← htake, hinner, List.drop_one, List.tail_cons] at hleads
  rw [hparts, hinner] at hstart
  obtain ⟨hfirst, -⟩ := List.cons_prefix_cons.1 hstart
  refine ⟨id, ?_, hnames⟩
  rw [Scopes.findDotted, hinner]
  simp only
  rw [hfirst, hbinds.find, hleads.foldl_component]

/-- If no module is on offer for the first component, the last import of it has made up one that leads nowhere
but to the components of its own name. -/
theorem Leads.forgets {modules : ModuleCache} {a : Alias} (h : s.Leads modules a) (ha : a.asname = none)
    {first second other name : String} {rest more : List String}
    (hparts : dottedParts a.name = first :: second :: rest) (hnone : modules.get? (modulePath first) = none)
    (hname : dottedParts name = first :: other :: more) (hne : other ≠ second) :
    (s.scopes.findDotted s.arena name).1 = .any := by
  obtain ⟨value, hbinds, hshown⟩ := h
  obtain ⟨_, hbound⟩ := Alias.dottedParts_eq_cons ha
  obtain ⟨rfl, -⟩ := List.cons.inj (hparts.symm.trans hbound)
  obtain ⟨id, rfl, hkeys⟩ := hshown.alone (by simp [hparts]) (by
    rw [pathOf, hparts, List.take_succ_cons, List.take_zero, String.intercalate_singleton]
    exact hnone)
  have hmissing : (s.arena.moduleAt id).exports.get? other = none := by
    refine Option.eq_none_iff_forall_ne_some.2 fun t ht => hne ?_
    have hmem : other ∈ (s.arena.moduleAt id).exports.keys := Table.mem_keys_of_get? ht
    rw [hkeys, hparts] at hmem
    exact List.mem_singleton.1 hmem
  have hstep : s.arena.component (.module id) other = (.any, s.arena) := by
    rw [Arena.component, hmissing]
    rfl
  rw [Scopes.findDotted, hname]
  simp only
  rw [hbinds.find, List.foldl_cons, hstep, Arena.foldl_component_any]

/-- What imports have led to: a name leads to the modules of the last import that bound it. -/
structure Imported (modules : ModuleCache) (done : List Alias) (s : Session) : Prop where
  room : s.scopes.Room
  latest : ∀ before a after, done = before ++ a :: after → (∀ b ∈ after, b.boundName ≠ a.boundName) →
    s.Leads modules a

theorem Imported.start {modules : ModuleCache} (hroom : s.scopes.Room) : s.Imported modules [] where
  room := hroom
  latest before a after hdone := absurd hdone (by simp)

end Session

namespace Adoption

theorem Extends.keepsModules {w : World} {P : Entry → Prop} {a b : Adoption} (h : Extends w P a b) :
    a.arena.KeepsModules b.arena where
  size := by
    by_contra hlt
    have hlast : a.target.Contains (.module ⟨b.arena.modules.size⟩) := Nat.lt_of_not_le hlt
    exact Nat.lt_irrefl _ (h.keeps hlast).1
  same id hid := (h.keeps (f := .module id) hid).2

theorem gives_exports (table : SymbolTable) (s : Session) :
    Gives (table.world.Grounded table.Exposes)
      (table.bindings.mapM fun b => adopt (copier table.world) b.type)
      { arena := s.arena, scopes := s.scopes }
      fun exports b => s.Gains { s with arena := b.arena, scopes := b.scopes } ∧
        exports.keys = table.bindings.keys := by
  refine (copying_exports table _ (valid_start s.arena s.scopes)).imp fun exports b hb => ?_
  obtain ⟨hb, hnames⟩ := hb
  refine ⟨⟨hb.keepsModules, hb.current, hb.size_le, fun id hid => (hb.keeps (f := .scope id) hid).2⟩, ?_⟩
  have hkeys : List.Forall₂ (· = ·) (table.bindings.entries.map (·.1)) (exports.entries.map (·.1)) :=
    List.forall₂_map_left_iff.2 (List.forall₂_map_right_iff.2 (hnames.imp fun _ _ h => h.1))
  exact (List.forall₂_eq_eq_eq ▸ hkeys).symm

end Adoption

namespace Discipline

def ending (stop : Stop → Prop) : Discipline where
  inv _ := True
  le _ _ := True
  stop := stop
  le_refl _ := trivial
  le_trans _ _ := trivial

def importing (c : Context) : Discipline :=
  ending fun _ => ∃ table, c.modules.Offers table ∧ ¬table.world.Grounded table.Exposes

namespace Importing

open CheckM Check Yields

variable {c : Context} {s : Session}

structure Adds (s t : Session) (table : SymbolTable) (value : Ty) : Prop where
  gains : s.Gains t
  exports : t.arena.Exports value table
  fresh : ∀ id, value = .module id → s.arena.modules.size ≤ id.val ∧ id.val < t.arena.modules.size

theorem gains_addModule (s : Session) (info : ModuleInfo) :
    s.Gains { s with arena := (s.arena.addModule info).2 } where
  modules := ⟨by simp [Arena.addModule], fun _ hid => getD_push_of_lt hid⟩
  current := rfl
  size := Nat.le_refl _
  scopes _ _ := rfl

theorem gains_modifyModule (h : s.Gains t) {id : ModuleId} (hnew : s.arena.modules.size ≤ id.val)
    (f : ModuleInfo → ModuleInfo) : s.Gains { t with arena := t.arena.modifyModule id f } where
  modules := by
    refine ⟨Nat.le_trans h.modules.size (Nat.le_of_eq Array.size_modify.symm), fun other hother => ?_⟩
    rw [← h.modules.same other hother]
    exact getD_modify_of_ne (by omega)
  current := h.current
  size := h.size
  scopes := h.scopes

theorem adoptTable (name : String) {table : SymbolTable} (h : c.modules.Offers table) :
    (importing c).Yields c (Check.adoptTable name table) (Check.adoptTable name table) s
      fun t value => Adds s t table value := by
  have hgives := Adoption.gives_exports table s
  unfold Adoption.Gives at hgives
  unfold Check.adoptTable Check.adopting
  refine Yields.bind (Q := fun t exports => s.Gains t ∧ exports.keys = table.bindings.keys) (.get_bind ?_)
    fun exports t _ ⟨hst, hkeys⟩ => ?_
  · cases hrun : (table.bindings.mapM fun b => Adoption.adopt (Adoption.copier table.world) b.type).run
        { arena := s.arena, scopes := s.scopes } with
    | ok result =>
      rw [hrun] at hgives
      exact .of_ok rfl ⟨trivial, trivial⟩ hgives
    | error e =>
      rw [hrun] at hgives
      exact .throw trivial ⟨table, h, hgives.2⟩
  · refine .of_ok rfl ⟨trivial, trivial⟩
      ⟨hst.trans (gains_addModule t _), ⟨⟨t.arena.modules.size⟩, rfl, ?_⟩, ?_⟩
    · change _ ⊆ ((t.arena.addModule { name, exports }).2.moduleAt ⟨t.arena.modules.size⟩).exports.keys
      rw [Arena.moduleAt_addModule, hkeys]
      exact List.Subset.refl _
    · rintro id ⟨⟩
      exact ⟨hst.modules.size, by simp⟩

theorem moduleAt? {path : String} (name : String)
    (h : ∀ table, c.modules.get? path = some table → c.modules.Offers table) :
    (importing c).Yields c (Check.moduleAt? path name) (Check.moduleAt? path name) s
      fun t found => s.Gains t ∧
        (∀ table, c.modules.get? path = some table → ∃ value, found = some value ∧ Adds s t table value) ∧
        (c.modules.get? path = none → found = none) := by
  refine .read_bind ?_
  cases hpath : c.modules.get? path with
  | none => exact .pure trivial ⟨.refl s, nofun, fun _ => rfl⟩
  | some table =>
    refine (adoptTable name (h table hpath)).map fun value t _ hadds => ⟨hadds.gains, ?_, nofun⟩
    rintro _ ⟨⟩
    exact ⟨value, rfl, hadds⟩

theorem wrapModule (parts : List String) {value : Ty} {depth : Nat} (hdepth : depth < parts.length)
    (hvalue : c.modules.Shown parts (depth + 1) s.arena value) :
    (importing c).Yields c (Check.wrapModule parts value depth) (Check.wrapModule parts value depth) s
      fun t value => s.Gains t ∧ c.modules.Shown parts depth t.arena value := by
  refine (moduleAt? _ fun _ => .module _).bind fun found t _ ⟨hgains, hsome, hnone⟩ => ?_
  cases hpath : c.modules.get? (pathOf parts depth) with
  | some table =>
    obtain ⟨_, rfl, hadds⟩ := hsome table hpath
    obtain ⟨id, rfl, hnames⟩ := hadds.exports
    obtain ⟨hnew, hthere⟩ := hadds.fresh id rfl
    let f (m : ModuleInfo) : ModuleInfo := { m with exports := m.exports.insert (parts.getD depth "") value }
    have hmodule : (t.arena.modifyModule id f).moduleAt id = f (t.arena.moduleAt id) :=
      Arena.moduleAt_modifyModule f hthere
    have hmodified := gains_modifyModule hgains hnew f
    refine .of_ok rfl ⟨trivial, trivial⟩ ⟨hmodified, hvalue.wrap hdepth hmodified.modules id ?_ ?_ ?_⟩
    · rw [hmodule]
      exact (Table.get?_insert _ _ _ _).trans (if_pos (beq_self_eq_true _))
    · intro other hother
      obtain rfl : table = other := Option.some.inj (hpath.symm.trans hother)
      refine ⟨id, rfl, ?_⟩
      rw [hmodule, Table.keys_insert]
      split
      · exact hnames
      · exact List.subset_append_of_subset_left _ hnames
    · intro hnone
      rw [hpath] at hnone
      cases hnone
  | none =>
    obtain rfl := hnone hpath
    let info : ModuleInfo :=
      { name := String.intercalate "." (parts.take depth), exports := .ofList [(parts.getD depth "", value)] }
    have hadded := hgains.trans (gains_addModule t info)
    have hmodule := t.arena.moduleAt_addModule info
    refine .of_ok rfl ⟨trivial, trivial⟩ ⟨hadded, hvalue.wrap hdepth hadded.modules _ ?_ ?_ ?_⟩
    · change ((t.arena.addModule info).2.moduleAt _).exports.get? _ = _
      rw [hmodule]
      exact (Table.get?_insert _ _ _ _).trans (if_pos (beq_self_eq_true _))
    · intro table htable
      rw [hpath] at htable
      cases htable
    · intro _
      change ((t.arena.addModule info).2.moduleAt _).exports.keys = _
      rw [hmodule]
      rfl

theorem wrapModules (parts : List String) {value : Ty} {depth : Nat} (hdepth : depth < parts.length)
    (hvalue : c.modules.Shown parts (depth + 1) s.arena value) :
    (importing c).Yields c
      ((List.range' 1 depth).reverse.foldlM (Check.wrapModule parts) value)
      ((List.range' 1 depth).reverse.foldlM (Check.wrapModule parts) value) s
      fun t value => s.Gains t ∧ c.modules.Shown parts 1 t.arena value := by
  induction depth generalizing s value with
  | zero => exact .pure trivial ⟨.refl s, hvalue⟩
  | succ depth ih =>
    rw [List.range'_concat, List.reverse_append, List.reverse_singleton, List.singleton_append,
      List.foldlM_cons, Nat.one_mul, Nat.add_comm 1 depth]
    refine (wrapModule parts hdepth hvalue).bind fun value t _ ⟨hst, hvalue⟩ => ?_
    exact (ih (Nat.lt_of_succ_lt hdepth) hvalue).imp fun value u _ ⟨htu, hvalue⟩ => ⟨hst.trans htu, hvalue⟩

theorem importModule {done : List Alias} (h : s.Imported c.modules done) {a : Alias} (ha : a.asname = none) :
    (importing c).Yields c (Check.importModule a) (Check.importModule a) s
      fun t _ => t.Imported c.modules (done ++ [a]) := by
  obtain ⟨rest, hparts⟩ := Alias.dottedParts_eq_cons ha
  refine (moduleAt? _ fun _ => .module _).bind fun found t _ ⟨hst, hsome, _⟩ => ?_
  have hshown :
      c.modules.Shown (dottedParts a.name) (dottedParts a.name).length t.arena (found.getD .any) := by
    refine .of_value fun table htable => ?_
    rw [pathOf, List.take_length, intercalate_dottedParts] at htable
    obtain ⟨value, rfl, hadds⟩ := hsome table htable
    exact hadds.exports
  have hpos : (dottedParts a.name).length = (dottedParts a.name).length - 1 + 1 := by simp [hparts]
  rw [hpos] at hshown
  simp only [ha, Option.isSome_none, Bool.false_eq_true, if_false]
  refine (wrapModules _ (by omega) hshown).bind fun bound u _ ⟨htu, hbound⟩ => ?_
  have hgains := hst.trans htu
  have hroom := hgains.room h.room
  refine .of_ok rfl ⟨trivial, trivial⟩ ⟨hroom.set _ _ _, fun before b after hdone hafter => ?_⟩
  obtain rfl | ⟨others, hdone, hothers, hne⟩ := Alias.latest_concat hdone hafter
  · exact ⟨bound, Scopes.binds_set (hroom _) _ _, hbound⟩
  · obtain ⟨value, hbinds, hvalue⟩ := h.latest before b others hdone hothers
    exact ⟨value, (hgains.binds h.room hbinds).set_of_ne hne _ _, hvalue.mono hgains.modules⟩

theorem aliases {names : List Alias} (hplain : ∀ a ∈ names, a.asname = none) {done : List Alias}
    (h : s.Imported c.modules done) :
    (importing c).Yields c
      (forIn names PUnit.unit fun a _ => do Check.importModule a; pure (ForInStep.yield PUnit.unit))
      (forIn names PUnit.unit fun a _ => do Check.importModule a; pure (ForInStep.yield PUnit.unit)) s
      fun t _ => t.Imported c.modules (done ++ names) := by
  induction names generalizing done s with
  | nil => exact .pure trivial (by rwa [List.append_nil])
  | cons a rest ih =>
    obtain ⟨ha, hrest⟩ := List.forall_mem_cons.1 hplain
    rw [List.forIn_cons]
    have hstep := (importModule h ha).bind (g := fun _ => pure (ForInStep.yield PUnit.unit))
      (R := fun t step => t.Imported c.modules (done ++ [a]) ∧ step = ForInStep.yield PUnit.unit)
      fun _ t _ ht => .pure trivial ⟨ht, rfl⟩
    refine hstep.bind fun step t _ ⟨ht, hstep⟩ => ?_
    subst hstep
    have hnext := ih hrest ht
    rwa [List.append_assoc, List.singleton_append] at hnext

theorem checkStmt {inner : Inner} {stmt : Stmt} {names : List Alias}
    (hform : stmt.form = .importModules names) (hplain : ∀ a ∈ names, a.asname = none) {done : List Alias}
    (h : s.Imported c.modules done) :
    (importing c).Yields c (Check.checkStmt inner stmt) (Check.checkStmt inner stmt) s
      fun t _ => t.Imported c.modules (done ++ names) := by
  unfold Check.checkStmt
  rw [hform]
  refine Yields.bind (Q := fun t _ => t.Imported c.modules done)
    (.modify ⟨trivial, trivial⟩ ⟨h.room, h.latest⟩) fun _ t _ ht => ?_
  exact (aliases hplain ht).bind fun _ u _ hu => .pure trivial hu

theorem statements {inner : Inner} {stmts : List Stmt} {imports : List (List Alias)}
    (hforms : stmts.map (·.form) = imports.map .importModules)
    (hplain : ∀ a ∈ imports.flatten, a.asname = none) {done : List Alias} (h : s.Imported c.modules done) :
    (importing c).Yields c (stmts.forM (Check.checkStmt inner)) (stmts.forM (Check.checkStmt inner)) s
      fun t _ => t.Imported c.modules (done ++ imports.flatten) := by
  induction stmts generalizing imports done s with
  | nil =>
    obtain rfl := List.map_eq_nil_iff.1 hforms.symm
    exact .pure trivial (by rwa [List.flatten_nil, List.append_nil])
  | cons stmt rest ih =>
    cases imports with
    | nil => cases hforms
    | cons names imports =>
      obtain ⟨hform, hforms⟩ := List.cons.inj hforms
      obtain ⟨hnames, hplain⟩ := List.forall_mem_append.1 hplain
      refine (checkStmt hform hnames h).bind fun _ t _ ht => ?_
      have hnext := ih hforms hplain ht
      rwa [List.append_assoc, ← List.flatten_cons] at hnext

end Importing

end Discipline

open Check in
/-- Import statements without other names, run in one scope. If they end, each prefix of a name that was
imported resolves to a module with all names of its table, unless a later import has bound the first component
anew. They do end if no class of a module on offer is among its own bases. -/
theorem imports_resolve (c : Context) (inner : Inner) (s : Session) (hroom : s.scopes.Room)
    (stmts : List Stmt) (imports : List (List Alias))
    (hforms : stmts.map (·.form) = imports.map .importModules)
    (hplain : ∀ a ∈ imports.flatten, a.asname = none) :
    (∀ t, (stmts.forM (checkStmt inner)).outcome c s = (.ok ⟨⟩, t) →
      ∀ before a after, imports.flatten = before ++ a :: after →
        (∀ b ∈ after, b.boundName ≠ a.boundName) → t.Resolves c.modules a.name) ∧
    ((∀ table, c.modules.Offers table → table.world.Grounded table.Exposes) →
      ∃ t, (stmts.forM (checkStmt inner)).outcome c s = (.ok ⟨⟩, t)) := by
  let run := stmts.forM (checkStmt inner)
  have hrun : (Discipline.importing c).Yields c run run s fun t _ => t.Imported c.modules imports.flatten :=
    Discipline.Importing.statements hforms hplain (.start hroom)
  refine ⟨fun t ht before a after himports hafter => ?_, fun hgrounded => ?_⟩
  · have ha : a ∈ imports.flatten := by simp [himports]
    exact ((hrun.result _ t ht).latest before a after himports hafter).resolves (hplain a ha)
  · rcases ho : run.outcome c s with ⟨e | _, t⟩
    · obtain ⟨table, hoffers, hnot⟩ := hrun.stop e (by rw [ho])
      exact absurd (hgrounded table hoffers) hnot
    · exact ⟨t, rfl⟩

theorem modulePath_eq (name : String) :
    modulePath name = String.ofList (name.toList.map fun c => if c == '.' then '/' else c) := by
  rw [← String.toList_inj, String.toList_ofList, modulePath, String.toList_map]

def numberModule (file name : String) : SymbolTable where
  world := { scopes := ({} : Scopes).set name .int 1.0 }
  scope := Scopes.global
  file := file

/-- Two modules below a package that is not on offer itself. -/
def siblings : Context where
  treeFile := "main.py"
  modules := ⟨[("a/b", numberModule "a/b.py" "v"), ("a/c", numberModule "a/c.py" "w")]⟩

def importingSiblings : List Stmt :=
  ["a.b", "a.c"].map fun name => { id := 0, form := .importModules [⟨name, none⟩], span := default }

theorem forms_importingSiblings :
    importingSiblings.map (·.form) = [[⟨"a.b", none⟩], [⟨"a.c", none⟩]].map .importModules :=
  rfl

def Session.first : Session where
  arena := {}
  scopes := {}
  hub := default

theorem grounded_siblings (table : SymbolTable) (h : siblings.modules.Offers table) :
    table.world.Grounded table.Exposes := by
  obtain ⟨path, hmem⟩ := h.mem
  have harena : table.world.arena = {} := by
    rcases List.mem_cons.1 hmem with heq | hmem
    · cases heq
      rfl
    · cases List.mem_singleton.1 hmem
      rfl
  intro id _ hinherits
  obtain ⟨base, hbase, -⟩ := Relation.TransGen.head'_iff.1 hinherits
  rw [harena, Arena.bases_of_size_le (Nat.zero_le _)] at hbase
  cases hbase

theorem imports_resolve_siblings :
    Session.first.scopes.Room ∧
      ∃ t, (importingSiblings.forM (Check.checkStmt (Check.innerUpTo 0))).outcome siblings Session.first =
          (.ok ⟨⟩, t) ∧
        t.Resolves siblings.modules "a.c" := by
  have hroom : Session.first.scopes.Room := fun _ => Nat.zero_lt_one
  have hresolve := imports_resolve siblings (Check.innerUpTo 0) Session.first hroom importingSiblings
    _ forms_importingSiblings (by simp)
  obtain ⟨t, ht⟩ := hresolve.2 grounded_siblings
  exact ⟨hroom, t, ht, hresolve.1 t ht [⟨"a.b", none⟩] ⟨"a.c", none⟩ [] rfl nofun⟩

/-- The second import makes up the package anew, and the first module is lost. -/
theorem imports_lose_sibling :
    ∃ t, (importingSiblings.forM (Check.checkStmt (Check.innerUpTo 0))).outcome siblings Session.first =
        (.ok ⟨⟩, t) ∧
      (siblings.modules.get? (modulePath "a.b")).isSome ∧ (t.scopes.findDotted t.arena "a.b").1 = .any := by
  let run := importingSiblings.forM (Check.checkStmt (Check.innerUpTo 0))
  have hroom : Session.first.scopes.Room := fun _ => Nat.zero_lt_one
  have hrun : (Discipline.importing siblings).Yields siblings run run Session.first fun t _ =>
      t.Imported siblings.modules [⟨"a.b", none⟩, ⟨"a.c", none⟩] :=
    Discipline.Importing.statements forms_importingSiblings (by simp) (.start hroom)
  rcases ho : run.outcome siblings Session.first with ⟨e | _, t⟩
  · obtain ⟨table, hoffers, hnot⟩ := hrun.stop e (by rw [ho])
    exact absurd (grounded_siblings table hoffers) hnot
  · have hleads := (hrun.result _ t ho).latest [⟨"a.b", none⟩] ⟨"a.c", none⟩ [] rfl nofun
    have hnone : siblings.modules.get? (modulePath "a") = none := by
      rw [modulePath_eq]
      rfl
    refine ⟨t, rfl, by rw [modulePath_eq]; rfl, ?_⟩
    exact hleads.forgets rfl rfl hnone rfl (by decide)

end Credence

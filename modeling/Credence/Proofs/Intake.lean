import Credence.Proofs.Balance
import Credence.Proofs.Founded

namespace Credence

namespace SymbolTable

/-- A table of a world that holds only what is in it. -/
structure Sound (table : SymbolTable) : Prop where
  world : table.world.Sound
  scope : table.world.Contains (.scope table.scope)

/-- No builtin callable that the names of a module lead to has a signature that names entries. -/
structure Plain (table : SymbolTable) : Prop where
  bindings : ∀ entry ∈ table.bindings.entries, ∀ e, ¬entry.2.type.Fixes e
  stored : ∀ {e f : Entry} {t : Ty}, table.Exposes e → table.world.Stores e t → ¬t.Fixes f

end SymbolTable

section Copied

theorem Table.Copied.all {α : Type} {rel : α → α → Prop} {t u : Table α} {p : α → Prop}
    (h : t.Copied rel u) (hp : ∀ entry ∈ t.entries, ∀ y, rel entry.2 y → p y) : u.All p := by
  intro y hy
  obtain ⟨x, hx, hxy⟩ := exists_of_forall₂ (List.Forall₂.flip h) hy
  exact hp x hx y.2 hxy.2

variable {R : Entry → Entry → Prop} {has more : Entry → Prop} (hR : ∀ e f, R e f → more f)
include hR

theorem Ty.Copied.sound {t u : Ty} (h : t.Copied R u) (ht : t.Sound has) (hf : ∀ e, ¬t.Fixes e) :
    u.Sound more := by
  induction t using WellFounded.induction (measure (sizeOf : Ty → Nat)).wf generalizing u with
  | _ t ih =>
    cases h with
    | any => exact .any
    | undefined => exact .undefined
    | prim p => exact .prim p
    | builtin b => exact ht.of_names nofun fun e he => (hf e he).elim
    | container helts hvalues =>
      refine .container (fun u hu => ?_) fun u hu => ?_
      · obtain ⟨t, hmem, hcopied⟩ := exists_of_forall₂ helts.flip hu
        exact ih t (Ty.sizeOf_lt_of_mem_elts hmem) hcopied (ht.elts t hmem) fun e he =>
          hf e (.elt hmem he)
      · obtain ⟨t, hmem, hcopied⟩ := exists_of_forall₂ hvalues.flip hu
        exact ih t (Ty.sizeOf_lt_of_mem_values hmem) hcopied (ht.values t hmem) fun e he =>
          hf e (.value hmem he)
    | union helts =>
      refine Ty.sound_union _ fun u hu => ?_
      obtain ⟨t, hmem, hcopied⟩ := exists_of_forall₂ helts.flip hu
      exact ih t (Ty.sizeOf_lt_of_mem_union hmem) hcopied (ht.ofUnion t hmem) fun e he =>
        hf e (.alternative hmem he)
    | classObj h => exact .classObj (hR _ _ h)
    | object h => exact .object (hR _ _ h)
    | function h => exact .function (hR _ _ h)
    | method ho hm => exact .method (hR _ _ ho) (hR _ _ hm)
    | module h => exact .module (hR _ _ h)

theorem Slot.Copied.sound {s t : Slot} (h : s.Copied R t) (hs : s.type.Sound has)
    (hf : ∀ e, ¬s.type.Fixes e) : t.type.Sound more := by
  cases h with
  | value h => exact h.sound hR hs hf
  | function h => exact .function (hR _ _ h)

theorem optionCopied_sound {o copy : Option Ty} (h : Option.Rel (Ty.Copied R) o copy)
    (ho : ∀ t ∈ o, t.Sound has ∧ ∀ e, ¬t.Fixes e) : ∀ t ∈ copy, t.Sound more := by
  intro u hu
  obtain ⟨t, ht, hcopied⟩ := exists_of_mem_optionRel h hu
  exact hcopied.sound hR (ho t ht).1 (ho t ht).2

theorem ParamInfo.Copied.sound {p q : ParamInfo} (h : p.Copied R q)
    (hp : ∀ t, p.Uses t → t.Sound has ∧ ∀ e, ¬t.Fixes e) : q.Sound more where
  ascribed := optionCopied_sound hR h.ascribed fun t ht => hp t (.inl ht)
  default := optionCopied_sound hR h.default fun t ht => hp t (.inr ht)

theorem Signature.Copied.sound {s t : Signature} (h : s.Copied R t)
    (hs : ∀ p ∈ s.all, ∀ t, p.Uses t → t.Sound has ∧ ∀ e, ¬t.Fixes e) : t.Sound more := by
  intro q hq
  simp only [Signature.all, List.mem_append, Option.mem_toList] at hs hq
  have optional {o copy : Option ParamInfo} (h : Option.Rel (ParamInfo.Copied R) o copy)
      (ho : ∀ p ∈ o, ∀ t, p.Uses t → t.Sound has ∧ ∀ e, ¬t.Fixes e) (hq : q ∈ copy) :
      q.Sound more := by
    obtain ⟨p, hp, hcopied⟩ := exists_of_mem_optionRel h hq
    exact ParamInfo.Copied.sound hR hcopied (ho p hp)
  rcases hq with ((hq | hq) | hq) | hq
  · obtain ⟨p, hp, h⟩ := exists_of_forall₂ h.args.flip hq
    exact ParamInfo.Copied.sound hR h (hs p (.inl (.inl (.inl hp))))
  · exact optional h.vararg (fun p hp => hs p (.inl (.inl (.inr hp)))) hq
  · obtain ⟨p, hp, h⟩ := exists_of_forall₂ h.kwonly.flip hq
    exact ParamInfo.Copied.sound hR h (hs p (.inl (.inr hp)))
  · exact optional h.kwarg (fun p hp => hs p (.inr hp)) hq

end Copied

namespace Adoption

variable {w : World} {P : Entry → Prop} {has : Entry → Prop} {a b : Adoption}

/-- An adoption into a sound world, in which only the outermost scope stands for the outermost one. -/
structure Fit (a : Adoption) : Prop where
  valid : a.Valid
  sound : a.target.Sound
  single : a.Single (.scope Scopes.global)

theorem Fit.contains (h : a.Fit) (e f : Entry) (hp : a.Pairs e f) : a.target.Contains f := by
  by_cases hf : f = .scope Scopes.global
  · subst hf
    exact h.sound.scopes.global
  · exact h.valid hp hf

/-- The entries of a world that can be taken in: all that they hold is sound and names no entries in
signatures of builtins. -/
structure Source (w : World) (P : Entry → Prop) (has : Entry → Prop) : Prop where
  stored : ∀ {e : Entry} {t : Ty}, P e → w.Stores e t → t.Sound has ∧ ∀ f, ¬t.Fixes f
  rooted : ∀ id, w.scopes.Rooted id

section Extends

variable (h : Extends w P a b) (ha : a.Fit) (hw : Source w P has)
include h ha

omit ha in
theorem Extends.grows : ∀ e, a.target.Contains e → b.target.Contains e :=
  fun _ he => (h.keeps he).1

theorem Extends.contains_of_fit (e f : Entry) (hp : b.Pairs e f) : b.target.Contains f := by
  by_cases hold : a.Pairs e f
  · exact (h.keeps (ha.contains _ _ hold)).1
  · exact (h.fresh hp hold).2

theorem Extends.exists_of_new {f : Entry} (hf : b.target.Contains f) (hnew : ¬a.target.Contains f) :
    ∃ e, P e ∧ b.Pairs e f ∧ w.Matches b.target b.Pairs e f := by
  obtain ⟨e, he⟩ := h.onto hf hnew
  have hold : ¬a.Pairs e f := fun hold => hnew (ha.contains _ _ hold)
  exact ⟨e, h.inside he hold, he, h.copies he hold⟩

theorem Extends.single_global : b.Single (.scope Scopes.global) :=
  h.single not_false ha.single

theorem Extends.ne_global {id : ScopeId} {f : Entry} (hp : b.Pairs (.scope id) f)
    (hnew : ¬a.target.Contains f) : id ≠ Scopes.global := by
  rintro rfl
  have hf : f = .scope Scopes.global := h.single_global ha hp (.inl ⟨rfl, rfl⟩)
  exact hnew (hf ▸ ha.sound.scopes.global)

include hw

theorem Extends.sound_cls (id : ClassId) : (b.arena.classAt id).Sound b.target.Contains id := by
  by_cases hold : a.target.Contains (.cls id)
  · have hsame : b.arena.classAt id = a.arena.classAt id := (h.keeps hold).2
    rw [hsame]
    exact (ha.sound.arena.cls id).mono (h.grows)
  by_cases hin : b.target.Contains (.cls id)
  · obtain ⟨e, he, hp, hm⟩ := h.exists_of_new ha hin hold
    cases e with
    | cls original =>
      refine ⟨fun base hbase => ?_, hm.2, hm.1.attributes.all fun entry hentry y hy => ?_, ?_⟩
      · obtain ⟨d, -, hd⟩ := exists_of_forall₂ hm.1.bases.flip hbase
        exact h.contains_of_fit ha (.cls _) (.cls base) hd
      · have hstored := hw.stored he (.slot hentry)
        exact hy.sound (h.contains_of_fit ha) hstored.1 hstored.2
      · rw [h.unmerged hin hold]
        exact fun _ h => absurd h (Option.not_mem_none _)
    | _ => exact hp.elim
  · have hdefault : b.arena.classAt id = default := getD_of_not_lt hin
    rw [hdefault]
    exact ⟨fun _ h => absurd h List.not_mem_nil, fun _ h => absurd h List.not_mem_nil,
      Table.all_empty, fun _ h => absurd h (Option.not_mem_none _)⟩

theorem Extends.sound_object (id : ObjectId) (hin : b.target.Contains (.object id)) :
    (b.arena.objectAt id).Sound b.target.Contains := by
  by_cases hold : a.target.Contains (.object id)
  · have hsame : b.arena.objectAt id = a.arena.objectAt id := (h.keeps hold).2
    rw [hsame]
    exact (ha.sound.arena.object id hold).mono (h.grows)
  obtain ⟨e, he, hp, hm⟩ := h.exists_of_new ha hin hold
  cases e with
  | object original =>
    refine ⟨h.contains_of_fit ha (.cls _) (.cls _) hm.cls, hm.overlay.all fun entry hentry y hy => ?_⟩
    have hstored := hw.stored he (.overlay hentry)
    exact hy.sound (h.contains_of_fit ha) hstored.1 hstored.2
  | _ => exact hp.elim

theorem Extends.sound_function (id : FunctionId) (hin : b.target.Contains (.function id)) :
    (b.arena.functionAt id).Sound b.target.Contains := by
  by_cases hold : a.target.Contains (.function id)
  · have hsame : b.arena.functionAt id = a.arena.functionAt id := (h.keeps hold).2
    rw [hsame]
    exact (ha.sound.arena.function id hold).mono (h.grows)
  obtain ⟨e, he, hp, hm⟩ := h.exists_of_new ha hin hold
  cases e with
  | function original =>
    refine ⟨hm.signature.sound (h.contains_of_fit ha) fun p hpm t ht => hw.stored he (.param hpm ht),
      optionCopied_sound (h.contains_of_fit ha) hm.declaredReturn fun t ht =>
        hw.stored he (.declared ht),
      optionCopied_sound (h.contains_of_fit ha) hm.lastReturn fun t ht =>
        hw.stored he (.last ht),
      fun owner howner => ?_, h.contains_of_fit ha (.scope _) (.scope _) hm.captured, ?_⟩
    · obtain ⟨_, -, hpair⟩ := exists_of_mem_optionRel hm.owner howner
      exact h.contains_of_fit ha (.cls _) (.cls _) hpair
    · have hcalls := hm.calls
      exact fun call hcall => absurd (hcalls ▸ hcall) List.not_mem_nil
  | _ => exact hp.elim

theorem Extends.sound_module (id : ModuleId) : (b.arena.moduleAt id).Sound b.target.Contains := by
  by_cases hold : a.target.Contains (.module id)
  · have hsame : b.arena.moduleAt id = a.arena.moduleAt id := (h.keeps hold).2
    rw [hsame]
    exact (ha.sound.arena.module id).mono (h.grows)
  by_cases hin : b.target.Contains (.module id)
  · obtain ⟨e, he, hp, hm⟩ := h.exists_of_new ha hin hold
    cases e with
    | module original =>
      refine hm.exports.all fun entry hentry y hy => ?_
      have hstored := hw.stored he (.exported hentry)
      exact hy.sound (h.contains_of_fit ha) hstored.1 hstored.2
    | _ => exact hp.elim
  · have hdefault : b.arena.moduleAt id = default := getD_of_not_lt hin
    rw [hdefault]
    exact Table.all_empty

theorem Extends.sound_arena : b.arena.Sound b.target.Contains where
  cls := h.sound_cls ha hw
  object := h.sound_object ha hw
  function := h.sound_function ha hw
  module := h.sound_module ha hw

theorem Extends.sound_scope (id : ScopeId) : (b.scopes.scopeAt id).Sound b.target.Contains := by
  by_cases hold : a.target.Contains (.scope id)
  · have hsame : b.scopes.scopeAt id = a.scopes.scopeAt id := (h.keeps hold).2
    rw [hsame]
    exact (ha.sound.scopes.scope id).mono (h.grows)
  by_cases hin : b.target.Contains (.scope id)
  · obtain ⟨e, he, hp, hm⟩ := h.exists_of_new ha hin hold
    cases e with
    | scope original =>
      have hne := h.ne_global ha hp hold
      refine ⟨hm.bindings.all fun entry hentry y hy => ?_, fun parent hparent => ?_, ?_⟩
      · have hstored := hw.stored he (.binding hne hentry)
        exact hy.type.sound (h.contains_of_fit ha) hstored.1 hstored.2
      · obtain ⟨_, -, hpair⟩ := exists_of_mem_optionRel hm.parent hparent
        exact h.contains_of_fit ha (.scope _) (.scope _) hpair
      · have hredirects : (b.scopes.scopeAt id).redirects = {} := hm.redirects
        rw [hredirects]
        exact Table.all_empty
    | _ => exact hp.elim
  · have hdefault : b.scopes.scopeAt id = default := getD_of_not_lt hin
    rw [hdefault]
    exact ⟨Table.all_empty, fun _ h => absurd h (Option.not_mem_none _), Table.all_empty⟩

theorem Extends.fit : b.Fit where
  valid := h.valid ha.valid
  sound :=
    { arena := h.sound_arena ha hw
      scopes :=
        { scope := h.sound_scope ha hw
          rooted := (h.formed ha.valid (ha.sound.scopes.formed fun _ hid => hid) hw.rooted).rooted
          current := h.grows _ (h.current ▸ ha.sound.scopes.current)
          saved := fun id hid => h.grows _ (ha.sound.scopes.saved id (h.saved ▸ hid))
          module := fun id hid => h.grows _ (ha.sound.scopes.module id (h.module ▸ hid))
          global := h.grows _ ha.sound.scopes.global } }
  single := h.single_global ha

end Extends

theorem fit_start {arena : Arena} {scopes : Scopes} (h : World.Sound ⟨arena, scopes⟩) :
    Fit { arena, scopes } :=
  ⟨valid_start arena scopes, h, single_start _⟩

/-- An adoption that is fit to go on, with all that its target had. -/
structure Onwards (a b : Adoption) : Prop where
  fit : b.Fit
  grows : ∀ e, a.target.Contains e → b.target.Contains e

theorem Onwards.refl (h : a.Fit) : a.Onwards a :=
  ⟨h, fun _ he => he⟩

theorem Onwards.trans {d : Adoption} (h : a.Onwards b) (k : b.Onwards d) : a.Onwards d :=
  ⟨k.fit, fun e he => k.grows e (h.grows e he)⟩

theorem Fit.set (h : a.Fit) (name : String) {t : Ty} (ht : t.Sound a.target.Contains)
    (confidence : Float) : a.Onwards { a with scopes := a.scopes.set name t confidence } := by
  have hsame : World.Contains ⟨a.arena, a.scopes.set name t confidence⟩ = a.target.Contains :=
    World.contains_of_size (a.scopes.steady_set name t confidence).size
  refine ⟨⟨?_, ⟨?_, ?_⟩, ?_⟩, fun e he => ?_⟩
  · intro e f hp hne
    change World.Contains ⟨a.arena, a.scopes.set name t confidence⟩ f
    rw [hsame]
    exact h.valid (e := e) (by cases e <;> cases f <;> exact hp) hne
  · change a.arena.Sound (World.Contains ⟨a.arena, a.scopes.set name t confidence⟩)
    rw [hsame]
    exact h.sound.arena
  · change Scopes.Sound (World.Contains ⟨a.arena, a.scopes.set name t confidence⟩) _
    rw [hsame]
    exact h.sound.scopes.set name ht confidence
  · intro f g hf hg
    exact h.single (by cases f <;> exact hf) (by cases g <;> exact hg)
  · change World.Contains ⟨a.arena, a.scopes.set name t confidence⟩ e
    rwa [hsame]

end Adoption

theorem World.Sound.stores {w : World} (h : w.Sound) {e : Entry} {t : Ty} (ht : w.Stores e t) :
    t.Sound w.Contains := by
  cases ht with
  | slot hs => exact (h.arena.cls _).attributes _ hs
  | overlay ho => exact (h.arena.object _ (Adoption.contains_of_overlay ho)).overlay _ ho
  | @param id p _ hp hu =>
    have hid : w.Contains (.function id) := Adoption.contains_of_functionAt fun hdefault => by
      rw [hdefault] at hp
      cases hp
    have hsound := (h.arena.function id hid).signature p hp
    rcases hu with hu | hu
    · exact hsound.ascribed t hu
    · exact hsound.default t hu
  | @declared id _ ht =>
    have hid : w.Contains (.function id) := Adoption.contains_of_functionAt fun hdefault => by
      rw [hdefault] at ht
      cases ht
    exact (h.arena.function id hid).declaredReturn t ht
  | @last id _ ht =>
    have hid : w.Contains (.function id) := Adoption.contains_of_functionAt fun hdefault => by
      rw [hdefault] at ht
      cases ht
    exact (h.arena.function id hid).lastReturn t ht
  | exported ht => exact (h.arena.module _) _ ht
  | binding _ hb => exact (h.scopes.scope _).bindings _ hb

namespace SymbolTable

variable {table : SymbolTable} {a : Adoption}

theorem Sound.binding (h : table.Sound) {entry : String × Binding}
    (hentry : entry ∈ table.bindings.entries) : entry.2.type.Sound table.world.Contains :=
  (h.world.scopes.scope table.scope).bindings entry hentry

theorem Sound.source (h : table.Sound) (hplain : table.Plain) :
    Adoption.Source table.world table.Exposes table.world.Contains where
  stored he ht := ⟨h.world.stores ht, fun _ => hplain.stored he ht⟩
  rooted := h.world.scopes.rooted

section Takes

open Adoption

variable (h : table.Sound) (hplain : table.Plain) (ha : a.Fit)
include h hplain ha

theorem Sound.gives_adopt {entry : String × Binding} (hentry : entry ∈ table.bindings.entries) :
    Gives False (adopt (Adoption.copier table.world) entry.2.type) a fun t b =>
      a.Onwards b ∧ t.Sound b.target.Contains := by
  have hmentions (e : Entry) (he : entry.2.type.Mentions e) : table.Exposes e :=
    table.world.spans_of_root ⟨entry, hentry, he⟩
  have hgives := copying_adopt (table.world.closed_spans _) hmentions ha.valid
  refine (hgives.of_live False.elim).imp fun t b hb => ?_
  have hfit := hb.1.fit ha (h.source hplain)
  refine ⟨⟨hfit, hb.1.grows⟩, ?_⟩
  exact hb.2.sound hfit.contains (h.binding hentry) (hplain.bindings entry hentry)

theorem Sound.gives_exports :
    Gives False (table.bindings.mapM fun b => adopt (Adoption.copier table.world) b.type) a
      fun exports b => a.Onwards b ∧ exports.All (Ty.Sound b.target.Contains) := by
  refine ((copying_exports table a ha.valid).of_live False.elim).imp fun exports b hb => ?_
  have hfit := hb.1.fit ha (h.source hplain)
  refine ⟨⟨hfit, hb.1.grows⟩, fun entry hentry => ?_⟩
  obtain ⟨x, hx, -, hcopied⟩ := exists_of_forall₂ hb.2.flip hentry
  exact hcopied.sound hfit.contains (h.binding hx) (hplain.bindings x hx)

theorem Sound.gives_bindings {entries : List (String × Binding)}
    (hentries : ∀ entry ∈ entries, entry ∈ table.bindings.entries) :
    Gives False
      (forIn entries PUnit.unit fun entry _ => do
        let t ← adopt (Adoption.copier table.world) entry.2.type
        modify fun s => { s with scopes := s.scopes.set entry.1 t entry.2.confidence }
        pure (ForInStep.yield PUnit.unit)) a fun _ b => a.Onwards b := by
  induction entries generalizing a with
  | nil => exact Gives.pure (.refl ha)
  | cons entry rest ih =>
    obtain ⟨hentry, hrest⟩ := List.forall_mem_cons.1 hentries
    rw [List.forIn_cons]
    refine Gives.bind (Gives.bind (h.gives_adopt hplain ha hentry) fun t b hb =>
      Gives.modify_bind (Q := fun step b => a.Onwards b ∧ step = ForInStep.yield PUnit.unit)
        (Gives.pure ⟨?_, rfl⟩)) ?_
    · exact hb.1.trans (hb.1.fit.set entry.1 hb.2 entry.2.confidence)
    · rintro _ b ⟨hb, rfl⟩
      exact (ih hb.fit hrest).imp fun _ d hd => hb.trans hd

end Takes

end SymbolTable

/-- What a check is given beside its module: hints that name no entries, and sound tables of modules
without builtin callables that name entries. -/
structure Context.Sound (c : Context) : Prop where
  hints : ∀ span found, c.hints.get? span = some found → found.1.Sound fun _ => False
  modules : ∀ table, c.modules.Offers table → table.Sound ∧ table.Plain

namespace Discipline.Founded

open CheckM Yields

variable {α : Type} {c : Context} {s : Session}

theorem adopting {x : AdoptM α} {Q : World → α → Prop} (hs : s.Founded)
    (hx : Adoption.Gives False x { arena := s.arena, scopes := s.scopes } fun r b =>
      Adoption.Onwards { arena := s.arena, scopes := s.scopes } b ∧ Q b.target r) :
    founded.Yields c (Check.adopting x) (Check.adopting x) s fun t r => Q t.world r := by
  refine .get_bind ?_
  unfold Adoption.Gives at hx
  cases hrun : x.run { arena := s.arena, scopes := s.scopes } with
  | ok result =>
    rw [hrun] at hx
    obtain ⟨⟨hfit, hgrows⟩, hresult⟩ := hx
    exact .of_ok rfl (hs.of_world hgrows hfit.sound.arena hfit.sound.scopes) hresult
  | error e => exact .throw hs trivial

section Imports

variable (hc : c.Sound) (hs : s.Founded)
include hc hs

theorem adoptTable (name : String) {table : SymbolTable} (h : c.modules.Offers table) :
    founded.Yields c (Check.adoptTable name table) (Check.adoptTable name table) s Session.Backs := by
  obtain ⟨htable, hplain⟩ := hc.modules table h
  unfold Check.adoptTable
  have hgives := htable.gives_exports hplain (Adoption.fit_start ⟨hs.arena, hs.scopes⟩)
  refine (adopting (Q := fun w exports => exports.All (Ty.Sound w.Contains)) hs hgives).bind
    fun exports t hst hexports => ?_
  have hinfo : ModuleInfo.Sound t.Has { name, exports } := hexports
  exact (addModule hst.1 hinfo).bind fun id u htu hid => .pure htu.1 (.module hid)

theorem moduleAt? {path : String} (name : String)
    (h : ∀ table, c.modules.get? path = some table → c.modules.Offers table) :
    founded.Yields c (Check.moduleAt? path name) (Check.moduleAt? path name) s
      fun t found => ∀ value ∈ found, t.Backs value :=
  .read_bind (.optionMapM hs fun table ht => adoptTable hc hs name (h table ht))

theorem wrapModule (parts : List String) {value : Ty} (hvalue : s.Backs value) (depth : Nat) :
    founded.Yields c (Check.wrapModule parts value depth) (Check.wrapModule parts value depth) s
      Session.Backs := by
  refine (moduleAt? hc hs _ fun _ => .module _).bind fun found t hst hfound => ?_
  have hvalue := hst.backs hvalue
  split
  · rename_i id
    have hid := hfound _ rfl
    refine (modifyArena hst.1 (hst.1.arena.modifyModule id ?_)).bind fun _ u htu _ => ?_
    · exact fun info hinfo => Table.All.insert hinfo _ hvalue
    · exact .pure htu.1 (htu.backs hid)
  · have hinfo : ModuleInfo.Sound t.Has
        { name := String.intercalate "." (parts.take depth)
          exports := .ofList [(parts.getD depth "", value)] } :=
      Table.all_ofList (List.forall_mem_singleton.2 hvalue)
    exact (addModule hst.1 hinfo).bind fun id u htu hid => .pure htu.1 (.module hid)

theorem importModule (a : Alias) :
    founded.Yields c (Check.importModule a) (Check.importModule a) s fun _ _ => True := by
  refine (moduleAt? hc hs _ fun _ => .module _).bind fun found t hst hfound => ?_
  have hvalue : t.Backs (found.getD .any) := by
    cases found with
    | none => exact .any
    | some value => exact hfound value rfl
  simp only
  split
  · exact setName hst.1 _ hvalue _
  · refine Yields.bind (.foldlM hst.1 hvalue fun depth _ value u htu hu => ?_)
      fun bound u htu hbound => setName htu.1 _ hbound _
    exact wrapModule hc htu.1 _ hu depth

theorem importAll {table : SymbolTable} (h : c.modules.Offers table) :
    founded.Yields c (Check.importAll table) (Check.importAll table) s fun _ _ => True := by
  obtain ⟨htable, hplain⟩ := hc.modules table h
  refine adopting (Q := fun _ _ => True) hs (Adoption.Gives.bind (htable.gives_bindings hplain
    (Adoption.fit_start ⟨hs.arena, hs.scopes⟩) fun entry hentry => (List.mem_filter.1 hentry).1) ?_)
  exact fun _ b hb => Adoption.Gives.pure ⟨hb, trivial⟩

theorem importName {module : String} {table? : Option SymbolTable} (a : Alias)
    (h : c.modules.get? (modulePath module) = table?) :
    founded.Yields c (Check.importName module table? a) (Check.importName module table? a) s
      fun _ _ => True := by
  unfold Check.importName
  split
  · rename_i table binding hfound
    obtain ⟨found, htable, hbinding⟩ := Option.bind_eq_some_iff.1 hfound
    obtain ⟨b, hget, hb⟩ := Option.map_eq_some_iff.1 hbinding
    cases hb
    rw [htable] at h
    obtain ⟨hsound, hplain⟩ := hc.modules table (.module module h)
    have hgives := hsound.gives_adopt hplain (Adoption.fit_start ⟨hs.arena, hs.scopes⟩)
      (mem_of_lookup hget)
    exact (adopting (Q := fun w t => t.Sound w.Contains) hs hgives).bind
      fun t u hsu ht => setName hsu.1 _ ht _
  · rename_i hnone
    have hunbound : ((c.modules.get? (modulePath module)).bind fun t => t.bindings.get? a.name) =
        none := by
      rw [h]
      cases table? with
      | none => rfl
      | some table => exact Option.map_eq_none_iff.1 hnone
    refine (moduleAt? hc hs _ fun _ => .below module a.name hunbound).bind fun found t hst hfound => ?_
    cases found with
    | none => exact setName hst.1 _ .any _
    | some value => exact setName hst.1 _ (hfound value rfl) _

theorem importFrom (module : String) (names : List Alias) :
    founded.Yields c (Check.importFrom module names) (Check.importFrom module names) s
      fun _ _ => True := by
  refine .read_bind (Yields.bind (.forIn hs fun a _ t hst => ?_) fun _ t hst _ => .pure hst.1 trivial)
  split
  · split
    · rename_i table h
      exact (importAll hc hst.1 (.module module h)).bind fun _ u htu _ => .pure htu.1 trivial
    · exact .pure hst.1 trivial
  · exact (importName hc hst.1 a rfl).bind fun _ u htu _ => .pure htu.1 trivial

end Imports

end Discipline.Founded

end Credence

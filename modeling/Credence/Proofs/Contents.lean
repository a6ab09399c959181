import Credence.Check.Session
import Credence.Proofs.Copier
import Credence.Proofs.Results
import Credence.Proofs.Steady

namespace Credence

section Arrays

variable {α : Type} {d : α} {p : α → Prop} {xs : Array α}

theorem getD_modify_rec {i j : Nat} {f : α → α} (h : p (xs.getD j d))
    (hf : i = j → p (f (xs.getD j d))) : p ((xs.modify i f).getD j d) := by
  by_cases hij : i = j
  · subst hij
    by_cases hlt : i < xs.size
    · rw [getD_modify_self hlt]
      exact hf rfl
    · rwa [getD_of_not_lt (by rwa [Array.size_modify]), ← getD_of_not_lt (d := d) hlt]
  · rwa [getD_modify_of_ne hij]

theorem getD_push_rec {x : α} {j : Nat} (h : j ≠ xs.size → p (xs.getD j d))
    (hx : j = xs.size → p x) : p ((xs.push x).getD j d) := by
  by_cases hlt : j < xs.size
  · rw [getD_push_of_lt hlt]
    exact h (Nat.ne_of_lt hlt)
  · by_cases heq : j = xs.size
    · subst heq
      rw [getD_push_size]
      exact hx rfl
    · rw [getD_of_not_lt (by rw [Array.size_push]; omega), ← getD_of_not_lt (d := d) hlt]
      exact h heq

end Arrays

namespace Table

variable {α : Type} {p q : α → Prop} {t : Table α}

/-- All that stands in a table has a property. -/
def All (p : α → Prop) (t : Table α) : Prop :=
  ∀ entry ∈ t.entries, p entry.2

theorem All.imp (h : t.All p) (hpq : ∀ x, p x → q x) : t.All q :=
  fun entry hentry => hpq _ (h entry hentry)

theorem All.of_get? (h : t.All p) {name : String} {x : α} (hx : t.get? name = some x) : p x :=
  h _ (mem_of_lookup hx)

theorem all_empty : (empty : Table α).All p :=
  fun _ h => absurd h List.not_mem_nil

theorem All.insert (h : t.All p) (name : String) {x : α} (hx : p x) : (t.insert name x).All p := by
  suffices ∀ entries : List (String × α), (∀ entry ∈ entries, p entry.2) →
      ∀ entry ∈ put name x entries, p entry.2 from this _ h
  intro entries
  induction entries with
  | nil => exact fun _ => List.forall_mem_singleton.2 hx
  | cons entry rest ih =>
    intro h
    obtain ⟨hentry, hrest⟩ := List.forall_mem_cons.1 h
    unfold put
    split
    · exact List.forall_mem_cons.2 ⟨hx, hrest⟩
    · exact List.forall_mem_cons.2 ⟨hentry, ih hrest⟩

theorem All.insertNew (h : t.All p) (name : String) {x : α} (hx : p x) :
    (t.insertNew name x).All p := by
  unfold Table.insertNew
  split
  · exact h
  · exact h.insert name hx

theorem All.insertMany (h : t.All p) {items : List (String × α)} (hitems : ∀ item ∈ items, p item.2) :
    (t.insertMany items).All p := by
  refine List.foldlRecOn items _ (motive := All p) h fun t ht item hitem => ?_
  exact ht.insert item.1 (hitems item hitem)

theorem all_ofList {items : List (String × α)} (hitems : ∀ item ∈ items, p item.2) :
    (ofList items).All p :=
  all_empty.insertMany hitems

theorem All.erase (h : t.All p) (name : String) : (t.erase name).All p :=
  fun entry hentry => h entry (List.mem_filter.1 hentry).1

end Table

section Entries

variable (has : Entry → Prop)

structure ClassInfo.Sound (id : ClassId) (c : ClassInfo) : Prop where
  bases : ∀ base ∈ c.bases, has (.cls base)
  older : ∀ base ∈ c.bases, base.val < id.val
  attributes : c.attributes.All fun slot => slot.type.Sound has
  inherited : ∀ merged ∈ c.inherited, merged.All fun slot => slot.type.Sound has

structure ObjectInfo.Sound (o : ObjectInfo) : Prop where
  cls : has (.cls o.cls)
  overlay : o.overlay.All (Ty.Sound has)

structure ParamInfo.Sound (p : ParamInfo) : Prop where
  ascribed : ∀ t ∈ p.ascribed, t.Sound has
  default : ∀ t ∈ p.default, t.Sound has

def Signature.Sound (s : Signature) : Prop :=
  ∀ p ∈ s.all, p.Sound has

structure CallKey.Sound (k : CallKey) : Prop where
  arguments : ∀ argument ∈ k.arguments, argument.2.Sound has
  captured : ∀ o ∈ k.captured, ∀ t ∈ o, t.Sound has

structure FunctionInfo.Sound (f : FunctionInfo) : Prop where
  signature : f.signature.Sound has
  declaredReturn : ∀ t ∈ f.declaredReturn, t.Sound has
  lastReturn : ∀ t ∈ f.lastReturn, t.Sound has
  owner : ∀ c ∈ f.owner, has (.cls c)
  captured : has (.scope f.captured)
  calls : ∀ call ∈ f.calls, call.1.Sound has ∧ call.2.Sound has

def ModuleInfo.Sound (m : ModuleInfo) : Prop :=
  m.exports.All (Ty.Sound has)

/-- All that the entries of an arena hold is there, and bases are older than their classes. -/
structure Arena.Sound (a : Arena) : Prop where
  cls : ∀ id, (a.classAt id).Sound has id
  object : ∀ id, has (.object id) → (a.objectAt id).Sound has
  function : ∀ id, has (.function id) → (a.functionAt id).Sound has
  module : ∀ id, (a.moduleAt id).Sound has

end Entries

section Mono

variable {has more : Entry → Prop} (hmono : ∀ e, has e → more e)
include hmono

theorem ClassInfo.Sound.mono {id : ClassId} {c : ClassInfo} (h : c.Sound has id) :
    c.Sound more id where
  bases base hbase := hmono _ (h.bases base hbase)
  older := h.older
  attributes := h.attributes.imp fun _ hs => hs.mono hmono
  inherited merged hm := (h.inherited merged hm).imp fun _ hs => hs.mono hmono

theorem ObjectInfo.Sound.mono {o : ObjectInfo} (h : o.Sound has) : o.Sound more where
  cls := hmono _ h.cls
  overlay := h.overlay.imp fun _ ht => ht.mono hmono

theorem ParamInfo.Sound.mono {p : ParamInfo} (h : p.Sound has) : p.Sound more where
  ascribed t ht := (h.ascribed t ht).mono hmono
  default t ht := (h.default t ht).mono hmono

theorem Signature.Sound.mono {s : Signature} (h : s.Sound has) : s.Sound more :=
  fun p hp => (h p hp).mono hmono

theorem CallKey.Sound.mono {k : CallKey} (h : k.Sound has) : k.Sound more where
  arguments argument ha := (h.arguments argument ha).mono hmono
  captured o ho t ht := (h.captured o ho t ht).mono hmono

theorem FunctionInfo.Sound.mono {f : FunctionInfo} (h : f.Sound has) : f.Sound more where
  signature := h.signature.mono hmono
  declaredReturn t ht := (h.declaredReturn t ht).mono hmono
  lastReturn t ht := (h.lastReturn t ht).mono hmono
  owner c hc := hmono _ (h.owner c hc)
  captured := hmono _ h.captured
  calls call hcall := ⟨(h.calls call hcall).1.mono hmono, (h.calls call hcall).2.mono hmono⟩

theorem ModuleInfo.Sound.mono {m : ModuleInfo} (h : m.Sound has) : m.Sound more :=
  Table.All.imp h fun _ ht => ht.mono hmono

theorem Arena.Sound.mono {a : Arena} (h : a.Sound has)
    (hobject : ∀ id, more (.object id) → has (.object id))
    (hfunction : ∀ id, more (.function id) → has (.function id)) : a.Sound more where
  cls id := (h.cls id).mono hmono
  object id hid := (h.object id (hobject id hid)).mono hmono
  function id hid := (h.function id (hfunction id hid)).mono hmono
  module id := (h.module id).mono hmono

end Mono

namespace Arena

variable {has more : Entry → Prop} {a b c : Arena}

/-- The arena is sound after a change that adds no entries. -/
structure Stays (has : Entry → Prop) (a b : Arena) : Prop where
  sound : b.Sound has
  classes : b.classes.size = a.classes.size
  objects : b.objects.size = a.objects.size
  functions : b.functions.size = a.functions.size
  modules : b.modules.size = a.modules.size

theorem Stays.refl (h : a.Sound has) : a.Stays has a :=
  ⟨h, rfl, rfl, rfl, rfl⟩

theorem Stays.trans (h : a.Stays has b) (k : b.Stays has c) : a.Stays has c :=
  ⟨k.sound, k.classes.trans h.classes, k.objects.trans h.objects, k.functions.trans h.functions,
    k.modules.trans h.modules⟩

theorem Sound.modifyClass (h : a.Sound has) (id : ClassId) {f : ClassInfo → ClassInfo}
    (hf : ∀ c, c.Sound has id → (f c).Sound has id) : a.Stays has (a.modifyClass id f) where
  sound :=
    { h with
      cls := fun other => by
        refine getD_modify_rec (p := ClassInfo.Sound has other) (h.cls other) fun heq => ?_
        obtain ⟨i⟩ := id
        cases heq
        exact hf _ (h.cls other) }
  classes := Array.size_modify
  objects := rfl
  functions := rfl
  modules := rfl

theorem Sound.keepInherited (h : a.Sound has) (id : ClassId) {merged : Table Slot}
    (hm : merged.All fun slot => slot.type.Sound has) : a.Stays has (a.keepInherited id merged) := by
  have hf (c : ClassInfo) (hc : c.Sound has id) :
      ClassInfo.Sound has id { c with inherited := some merged } :=
    { hc with inherited := fun _ heq => Option.mem_some.1 heq ▸ hm }
  have hs := h.modifyClass id hf
  exact ⟨⟨hs.sound.cls, hs.sound.object, hs.sound.function, hs.sound.module⟩, hs.classes, rfl, rfl, rfl⟩

theorem Sound.modifyObject (h : a.Sound has) (id : ObjectId) {f : ObjectInfo → ObjectInfo}
    (hf : ∀ o, o.Sound has → (f o).Sound has) : a.Stays has (a.modifyObject id f) where
  sound :=
    { h with
      object := fun other hother =>
        getD_modify_rec (h.object other hother) fun _ => hf _ (h.object other hother) }
  classes := rfl
  objects := Array.size_modify
  functions := rfl
  modules := rfl

theorem Sound.modifyFunction (h : a.Sound has) (id : FunctionId) {f : FunctionInfo → FunctionInfo}
    (hf : ∀ g, g.Sound has → (f g).Sound has) : a.Stays has (a.modifyFunction id f) where
  sound :=
    { h with
      function := fun other hother =>
        getD_modify_rec (h.function other hother) fun _ => hf _ (h.function other hother) }
  classes := rfl
  objects := rfl
  functions := Array.size_modify
  modules := rfl

theorem Sound.modifyModule (h : a.Sound has) (id : ModuleId) {f : ModuleInfo → ModuleInfo}
    (hf : ∀ m, m.Sound has → (f m).Sound has) : a.Stays has (a.modifyModule id f) where
  sound :=
    { h with
      module := fun other => getD_modify_rec (h.module other) fun _ => hf _ (h.module other) }
  classes := rfl
  objects := rfl
  functions := rfl
  modules := Array.size_modify

theorem Sound.putOverlay (h : a.Sound has) (id : ObjectId) (name : String) {t : Ty}
    (ht : t.Sound has) : a.Stays has (a.putOverlay id name t) :=
  h.modifyObject id fun _ ho => ⟨ho.cls, ho.overlay.insert name ht⟩

theorem Sound.putMember (h : a.Sound has) (id : ClassId) (name : String) {slot : Slot}
    (hs : slot.type.Sound has) : a.Stays has (a.putMember id name slot) := by
  refine h.modifyClass id fun c hc => ?_
  exact { hc with attributes := hc.attributes.insert name hs }

section Add

variable (h : a.Sound has) (hmono : ∀ e, has e → more e)
include h hmono

theorem Sound.addClass {info : ClassInfo} (hinfo : info.Sound has ⟨a.classes.size⟩)
    (hmore : ∀ e, more e → has e ∨ e = .cls ⟨a.classes.size⟩) : (a.addClass info).2.Sound more where
  cls id := by
    refine getD_push_rec (p := ClassInfo.Sound more id) (fun _ => (h.cls id).mono hmono) fun heq => ?_
    obtain ⟨i⟩ := id
    cases heq
    exact hinfo.mono hmono
  object id hid := (h.object id ((hmore _ hid).resolve_right nofun)).mono hmono
  function id hid := (h.function id ((hmore _ hid).resolve_right nofun)).mono hmono
  module id := (h.module id).mono hmono

theorem Sound.addObject {cls : ClassId} (hcls : has (.cls cls))
    (hmore : ∀ e, more e → has e ∨ e = .object ⟨a.objects.size⟩) :
    (a.addObject cls).2.Sound more where
  cls id := (h.cls id).mono hmono
  object id hid := by
    refine getD_push_rec (fun hne => ?_) fun _ => ⟨hmono _ hcls, Table.all_empty⟩
    refine (h.object id ((hmore _ hid).resolve_right fun heq => hne ?_)).mono hmono
    exact congrArg ObjectId.val (Entry.object.inj heq)
  function id hid := (h.function id ((hmore _ hid).resolve_right nofun)).mono hmono
  module id := (h.module id).mono hmono

theorem Sound.addFunction {info : FunctionInfo} (hinfo : info.Sound has)
    (hmore : ∀ e, more e → has e ∨ e = .function ⟨a.functions.size⟩) :
    (a.addFunction info).2.Sound more where
  cls id := (h.cls id).mono hmono
  object id hid := (h.object id ((hmore _ hid).resolve_right nofun)).mono hmono
  function id hid := by
    refine getD_push_rec (fun hne => ?_) fun _ => hinfo.mono hmono
    refine (h.function id ((hmore _ hid).resolve_right fun heq => hne ?_)).mono hmono
    exact congrArg FunctionId.val (Entry.function.inj heq)
  module id := (h.module id).mono hmono

theorem Sound.addModule {info : ModuleInfo} (hinfo : info.Sound has)
    (hmore : ∀ e, more e → has e ∨ e = .module ⟨a.modules.size⟩) :
    (a.addModule info).2.Sound more where
  cls id := (h.cls id).mono hmono
  object id hid := (h.object id ((hmore _ hid).resolve_right nofun)).mono hmono
  function id hid := (h.function id ((hmore _ hid).resolve_right nofun)).mono hmono
  module id := getD_push_rec (fun _ => (h.module id).mono hmono) fun _ => hinfo.mono hmono

end Add

theorem all_addMissing {merged slots : Table Slot} {p : Slot → Prop} (hm : merged.All p)
    (hs : slots.All p) : (addMissing merged slots).All p := by
  refine List.foldlRecOn slots.entries _ (motive := Table.All p) hm fun t ht entry hentry => ?_
  exact ht.insertNew entry.1 (hs entry hentry)

theorem merging_stays (has : Entry → Prop) (a : Arena) :
    Merging (a.Stays has) fun _ _ merged => merged.All fun slot => slot.type.Sound has where
  kept h hkept := (h.sound.cls _).inherited _ hkept
  empty _ := Table.all_empty
  older h _ hmerged habove := all_addMissing (all_addMissing hmerged (h.sound.cls _).attributes) habove
  other _ hmerged := hmerged
  keep h hmerged := h.trans (h.sound.keepInherited _ hmerged)

theorem Sound.inherited (h : a.Sound has) (id : ClassId) :
    (a.inherited id).1.All (fun slot => slot.type.Sound has) ∧ a.Stays has (a.inherited id).2 := by
  have hmerged := (merging_stays has a).inherited (.refl h) id
  exact ⟨hmerged.1, hmerged.2.1⟩

theorem Sound.classLookup (h : a.Sound has) (id : ClassId) (name : String) :
    (∀ slot ∈ (a.classLookup id name).1, slot.type.Sound has) ∧
      a.Stays has (a.classLookup id name).2 := by
  unfold Arena.classLookup
  split
  · rename_i slot hslot
    refine ⟨fun s hs => ?_, .refl h⟩
    cases hs
    exact (h.cls id).attributes.of_get? hslot
  · have hmerged := h.inherited id
    exact ⟨fun _ hs => hmerged.1.of_get? hs, hmerged.2⟩

theorem Sound.classOf (h : a.Sound has) {id : ObjectId} (hid : has (.object id)) :
    has (.cls (a.classOf id)) :=
  (h.object id hid).cls

theorem Sound.objectLookup (h : a.Sound has) {id : ObjectId} (hid : has (.object id))
    (name : String) :
    (∀ slot ∈ (a.objectLookup id name).1, slot.type.Sound has) ∧
      a.Stays has (a.objectLookup id name).2 := by
  unfold Arena.objectLookup
  split
  · rename_i t ht
    refine ⟨fun s hs => ?_, .refl h⟩
    cases hs
    exact (h.object id hid).overlay.of_get? ht
  · exact h.classLookup _ name

theorem sound_slot {slot? : Option Slot} (h : ∀ slot ∈ slot?, slot.type.Sound has) :
    ((slot?.map Slot.type).getD .any).Sound has := by
  cases slot? with
  | none => exact .any
  | some slot => exact h slot rfl

theorem Sound.component (h : a.Sound has) {t : Ty} (ht : t.Sound has) (part : String) :
    (a.component t part).1.Sound has ∧ a.Stays has (a.component t part).2 := by
  cases ht with
  | module _ =>
    rename_i id _
    refine ⟨?_, .refl h⟩
    change ((((a.moduleAt id).exports.get? part).getD .any)).Sound has
    cases hget : (a.moduleAt id).exports.get? part with
    | none => exact .any
    | some t => exact (h.module id).of_get? hget
  | classObj _ => exact ⟨sound_slot (h.classLookup _ part).1, (h.classLookup _ part).2⟩
  | object hid => exact ⟨sound_slot (h.objectLookup hid part).1, (h.objectLookup hid part).2⟩
  | _ => exact ⟨.any, .refl h⟩

structure Reading.Sound (has : Entry → Prop) (a : Arena) (r : Reading) : Prop where
  type : r.type.Sound has
  stays : a.Stays has r.arena

theorem sound_hit (h : a.Stays has b) {t : Ty} (ht : t.Sound has) : (b.hit t).Sound has a :=
  ⟨ht, h⟩

theorem sound_miss (h : a.Stays has b) (findings : List Finding) : (b.miss findings).Sound has a :=
  ⟨.any, h⟩

theorem Sound.readClass (h : a.Sound has) (id : ClassId) (name : String) (confidence : Float) :
    (a.readClass id name confidence).Sound has a := by
  unfold Arena.readClass
  split
  · exact sound_hit (.refl h) (.prim _)
  · have hlookup := h.classLookup id name
    simp only
    split
    · rename_i slot hslot
      exact sound_hit hlookup.2 (hlookup.1 slot hslot)
    · rename_i hmethod
      exact sound_hit hlookup.2 (Ty.Sound.stable.objectMethod? hmethod)
    · split <;> exact sound_miss hlookup.2 _

theorem Sound.readObject (h : a.Sound has) {id : ObjectId} (hid : has (.object id)) (name : String)
    (confidence : Float) : (a.readObject id name confidence).Sound has a := by
  unfold Arena.readObject
  simp only
  split
  · exact sound_hit (.refl h) (.classObj (h.classOf hid))
  have hlookup := h.objectLookup hid name
  split
  · rename_i f hslot
    have hf : has (.function f) := by
      cases hlookup.1 _ hslot with
      | function hf => exact hf
    split
    · exact sound_hit hlookup.2 (.method hid hf)
    · exact sound_hit hlookup.2 (.function hf)
    · exact sound_hit hlookup.2 (.function hf)
  · rename_i t hslot
    refine sound_hit hlookup.2 ?_
    split
    · exact .any
    · exact hlookup.1 _ hslot
  · split
    · rename_i hmethod
      exact sound_hit hlookup.2 (Ty.Sound.stable.objectMethod? hmethod)
    · split
      · exact sound_miss hlookup.2 _
      · exact sound_miss (hlookup.2.trans (hlookup.2.sound.putOverlay id name .any)) _

theorem Sound.readSingle (h : a.Sound has) {t : Ty} (ht : t.Sound has) (name : String)
    (confidence : Float) : (a.readSingle t name confidence).Sound has a := by
  unfold Arena.readSingle
  split
  · split
    · exact sound_hit (.refl h) (Ty.Sound.stable.prim_member? ‹_›)
    · split
      · exact sound_hit (.refl h) (Ty.Sound.stable.specialCallable name)
      · split <;> exact sound_miss (.refl h) _
  · split
    · exact sound_hit (.refl h) (Ty.Sound.stable.member? ht ‹_›)
    · split
      · exact sound_hit (.refl h) (Ty.Sound.stable.specialCallable name)
      · exact sound_miss (.refl h) _
  · exact h.readClass _ name confidence
  · cases ht with
    | object hid => exact h.readObject hid name confidence
  · split
    iterate 3 exact sound_hit (.refl h) (.prim _)
    · exact sound_hit (.refl h) ht
    · refine sound_hit (.refl h) ?_
      cases hmethod : Builtin.objectMethod? name with
      | none => exact .any
      | some method => exact Ty.Sound.stable.objectMethod? hmethod
  · split
    iterate 3 exact sound_hit (.refl h) (.prim _)
    · exact sound_hit (.refl h) ht
    · refine sound_hit (.refl h) ?_
      cases hmethod : Builtin.objectMethod? name with
      | none => exact .any
      | some method => exact Ty.Sound.stable.objectMethod? hmethod
  · split
    · exact sound_hit (.refl h) (.prim _)
    · split
      · exact sound_hit (.refl h) ((h.module _).of_get? ‹_›)
      · exact sound_miss (.refl h) _
  iterate 4 exact sound_hit (.refl h) .any

theorem Sound.readAttribute (h : a.Sound has) {t : Ty} (ht : t.Sound has) (name : String)
    (confidence : Float) : (a.readAttribute t name confidence).Sound has a := by
  induction t using WellFounded.induction (measure (sizeOf : Ty → Nat)).wf
    generalizing a confidence with
  | _ t ih =>
    rw [readAttribute.eq_def]
    split
    · exact sound_hit (.refl h) .any
    split
    · exact sound_hit (.refl h) (.prim _)
    split
    · rename_i u _
      suffices hfold : ∀ (items : List {item // item ∈ u.items})
          (state : List Ty × List Float × Reading),
          (∀ t ∈ state.1, t.Sound has) → a.Stays has state.2.2.arena →
          let result := items.foldl (fun (state : List Ty × List Float × Reading) item =>
            let next := Arena.readAttribute state.2.2.arena item.1.1 name item.1.2
            (state.1 ++ [next.type], state.2.1 ++ [item.1.2],
              { next with found := state.2.2.found || next.found
                          findings := state.2.2.findings ++ next.findings })) state
          (∀ t ∈ result.1, t.Sound has) ∧ a.Stays has result.2.2.arena by
        have hresult := hfold u.items.attach
          ([], [], { type := .any, found := false, arena := a })
          (fun _ h => absurd h List.not_mem_nil) (.refl h)
        exact ⟨Ty.sound_oneOf _ hresult.1, hresult.2⟩
      intro items
      induction items with
      | nil => exact fun state htypes hstays => ⟨htypes, hstays⟩
      | cons item rest rec =>
        intro state htypes hstays
        have hmem := (List.of_mem_zip item.2).1
        have hnext := ih item.1.1 (Ty.sizeOf_lt_of_mem_union hmem) hstays.sound (ht.ofUnion _ hmem)
          item.1.2
        refine rec _ (fun t htype => ?_) (hstays.trans hnext.stays)
        rcases List.mem_append.1 htype with htype | htype
        · exact htypes t htype
        · exact List.mem_singleton.1 htype ▸ hnext.type
    · exact h.readSingle ht name confidence

theorem sound_merged {old? : Option Ty} {value : Ty} (hold : ∀ t ∈ old?, t.Sound has)
    (hvalue : value.Sound has) : (a.merged old? value).Sound has := by
  unfold merged
  split
  · split
    · exact Ty.sound_oneOf_pair (hold _ rfl) hvalue
    · exact hvalue
  · exact hvalue

theorem sound_mergedSlot {slot? : Option Slot} {value : Ty}
    (hslot : ∀ slot ∈ slot?, slot.type.Sound has) (hvalue : value.Sound has) :
    (a.merged (slot?.map Slot.type) value).Sound has := by
  refine sound_merged (fun t ht => ?_) hvalue
  obtain ⟨slot, hs, rfl⟩ := Option.map_eq_some_iff.1 ht
  exact hslot slot hs

theorem sound_slotOfType {t : Ty} (ht : t.Sound has) : (Slot.ofType t).type.Sound has := by
  rw [Slot.type_ofType]
  exact ht

theorem sound_within {s t : Ty} (h : s.Within t) (ht : t.Sound has) : s.Sound has := by
  induction h with
  | self => exact ht
  | union hs _ ih => exact ih (ht.ofUnion _ hs)

theorem Sound.setAttribute (h : a.Sound has) {t value : Ty} (ht : t.Sound has)
    (hvalue : value.Sound has) (name : String) :
    a.Stays has (a.setAttribute t name value).2 := by
  apply setAttribute_of_single (I := a.Stays has) _ (.refl h)
  intro s b c hs hstep hb
  cases hstep with
  | none => exact hb
  | cls id _ =>
    have hlookup := hb.sound.classLookup id name
    have hslot := sound_slotOfType (sound_mergedSlot (a := (b.classLookup id name).2) hlookup.1 hvalue)
    exact hb.trans (hlookup.2.trans (hlookup.2.sound.putMember id name hslot))
  | object id hobject =>
    subst hobject
    cases sound_within hs ht with
    | object hid =>
      have hlookup := hb.sound.objectLookup hid name
      exact hb.trans
        (hlookup.2.trans (hlookup.2.sound.putOverlay id name (sound_mergedSlot hlookup.1 hvalue)))

theorem Sound.deleteAttribute (h : a.Sound has) (t : Ty) (name : String) :
    a.Stays has (a.deleteAttribute t name).2 := by
  cases t with
  | object id => exact h.modifyObject id fun _ ho => ⟨ho.cls, ho.overlay.erase name⟩
  | classObj id =>
    exact h.modifyClass id fun _ hc => { hc with attributes := hc.attributes.erase name }
  | _ => exact .refl h

theorem Sound.replaceAttribute (h : a.Sound has) (t : Ty) (name : String) {value : Ty}
    (hvalue : value.Sound has) : a.Stays has (a.replaceAttribute t name value) := by
  cases t with
  | object id => exact h.putOverlay id name hvalue
  | classObj id => exact h.putMember id name (sound_slotOfType hvalue)
  | _ => exact .refl h

end Arena

end Credence

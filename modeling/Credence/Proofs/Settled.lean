import Credence.Proofs.Arguments
import Credence.Proofs.Rooted

namespace Credence

/-- A type in which nothing is undefined, in the signatures of builtins either. -/
inductive Ty.Settled : Ty → Prop
  | any : Settled .any
  | prim (p : Prim) : Settled (.prim p)
  | container {c : Container Ty} (elts : ∀ t ∈ c.elts, Settled t) (values : ∀ t ∈ c.values, Settled t) :
      Settled (.container c)
  | union {u : Union Ty} (elts : ∀ t ∈ u.elts, Settled t) : Settled (.union u)
  | classObj (id : ClassId) : Settled (.classObj id)
  | object (id : ObjectId) : Settled (.object id)
  | function (id : FunctionId) : Settled (.function id)
  | method (object : ObjectId) (id : FunctionId) : Settled (.method object id)
  | builtin {b : Builtin Ty} (params : ∀ t ∈ b.params, Settled t) (ret : Settled b.ret) :
      Settled (.builtin b)
  | module (id : ModuleId) : Settled (.module id)

/-- What a member of a class holds: a settled type, or nothing yet. -/
def Ty.Held (t : Ty) : Prop :=
  t = .undefined ∨ t.Settled

namespace Union

theorem isUndefined_of_mem_ofList {elts : List Ty} {weights? : Option (List Float)} {t : Ty}
    (h : t ∈ (ofList elts weights?).elts) : t.isUndefined = false := by
  rw [elts_ofList] at h
  have hflat : t ∈ types (flatItems elts weights?) := by
    rcases List.mem_append.1 h with h | h
    all_goals
      obtain ⟨item, hitem, rfl⟩ := List.mem_map.1 (mem_types_mergeAll h)
      exact List.mem_map_of_mem (List.mem_filter.1 hitem).1
  obtain ⟨item, hitem, rfl⟩ := List.mem_map.1 hflat
  simpa using (List.mem_filter.1 hitem).2

end Union

namespace Ty

variable {t : Ty} {c : Container Ty} {ts : List Ty}

theorem Settled.held (h : t.Settled) : t.Held :=
  .inr h

theorem Settled.isUndefined (h : t.Settled) : t.isUndefined = false := by
  cases h <;> rfl

theorem Held.settled (h : t.Held) (hdefined : t.isUndefined = false) : t.Settled := by
  rcases h with rfl | h
  · cases hdefined
  · exact h

theorem Settled.elts (h : (Ty.container c).Settled) : ∀ t ∈ c.elts, t.Settled := by
  cases h with | container elts _ => exact elts

theorem Settled.values (h : (Ty.container c).Settled) : ∀ t ∈ c.values, t.Settled := by
  cases h with | container _ values => exact values

theorem Settled.ofUnion {u : Union Ty} (h : (Ty.union u).Settled) : ∀ t ∈ u.elts, t.Settled := by
  cases h with | union elts => exact elts

theorem Settled.ret {b : Builtin Ty} (h : (Ty.builtin b).Settled) : b.ret.Settled := by
  cases h with | builtin _ ret => exact ret

theorem settled_of_mem_ofList {weights? : Option (List Float)} (h : ∀ t ∈ ts, t.Held)
    (ht : t ∈ (Union.ofList ts weights?).elts) : t.Settled := by
  rcases Union.mem_elts_ofList ht with hmem | ⟨u, hu, hmem⟩
  · exact (h t hmem).settled (Union.isUndefined_of_mem_ofList ht)
  · exact ((h _ hu).settled rfl).ofUnion t hmem

theorem settled_oneOf (weights? : Option (List Float)) (h : ∀ t ∈ ts, t.Held) :
    (oneOf ts weights?).Settled := by
  refine of_oneOf .any (fun _ ht => settled_of_mem_ofList h ht) fun _ => ?_
  exact .union fun _ ht => settled_of_mem_ofList h ht

theorem settled_oneOf_pair {s : Ty} (hs : s.Held) (ht : t.Held) : (oneOf [s, t]).Settled :=
  settled_oneOf _ (List.forall_mem_cons.2 ⟨hs, List.forall_mem_singleton.2 ht⟩)

theorem settled_empty (kind : ContainerKind) : (Ty.container { kind }).Settled :=
  .container (fun _ h => absurd h List.not_mem_nil) fun _ h => absurd h List.not_mem_nil

theorem Settled.stable : Stable Settled where
  any := .any
  prim := .prim
  elts := Settled.elts
  values := Settled.values
  ofUnion := Settled.ofUnion
  oneOf weights? h := settled_oneOf weights? fun t ht => (h t ht).held
  empty := settled_empty
  pushWith prob hc helt hvalue :=
    .container (Container.forall_elts_pushWith _ prob hc.elts helt)
      (Container.forall_values_pushWith _ prob .any hc.values hvalue)
  builtin := .builtin

end Ty

structure ClassInfo.Settled (c : ClassInfo) : Prop where
  attributes : c.attributes.All fun slot => slot.type.Held
  inherited : ∀ merged ∈ c.inherited, merged.All fun slot => slot.type.Held

structure ParamInfo.Settled (p : ParamInfo) : Prop where
  ascribed : ∀ t ∈ p.ascribed, t.Settled
  default : ∀ t ∈ p.default, t.Settled

def Signature.Settled (s : Signature) : Prop :=
  ∀ p ∈ s.all, p.Settled

structure FunctionInfo.Settled (f : FunctionInfo) : Prop where
  signature : f.signature.Settled
  declaredReturn : ∀ t ∈ f.declaredReturn, t.Settled
  lastReturn : ∀ t ∈ f.lastReturn, t.Settled
  calls : ∀ call ∈ f.calls, call.2.Settled

/-- All values of an arena are settled, but for members of classes that have none yet. -/
structure Arena.Settled (a : Arena) : Prop where
  cls : ∀ id, (a.classAt id).Settled
  object : ∀ id, (a.objectAt id).overlay.All Ty.Settled
  function : ∀ id, (a.functionAt id).Settled
  module : ∀ id, (a.moduleAt id).exports.All Ty.Settled

namespace FunctionInfo.Settled

variable {f : FunctionInfo} (h : f.Settled)
include h

theorem declared? : ∀ t ∈ f.declared?, t.Settled :=
  fun t ht => h.declaredReturn t (Option.mem_filter_iff.1 ht).1

theorem cached? {key : CallKey} {t : Ty} (ht : f.cached? key = some t) : t.Settled := by
  obtain ⟨call, hcall, rfl⟩ := Option.map_eq_some_iff.1 ht
  exact h.calls call (List.mem_of_find?_eq_some hcall)

theorem remember (key : CallKey) {result : Ty} (hresult : result.Settled) :
    (f.remember key result).Settled :=
  { h with
    lastReturn := fun _ ht => Option.mem_some.1 ht ▸ hresult
    calls := List.forall_mem_append.2 ⟨fun call hcall => h.calls call (List.mem_filter.1 hcall).1,
      List.forall_mem_singleton.2 hresult⟩ }

theorem bindArguments (a : Arena) (probability : Float) {receiver : Option Ty}
    (hreceiver : ∀ t ∈ receiver, t.Settled) {args : CallArgs}
    (hpositional : ∀ t ∈ args.positional, t.Settled)
    (hkeywords : ∀ keyword ∈ args.keywords, keyword.2.Settled) :
    ∀ argument ∈ (f.bindArguments a probability receiver args).1, argument.2.Settled := by
  refine Ty.Settled.stable.bindArguments (fun p hp => ?_) a probability hreceiver hpositional hkeywords
  exact ⟨(h.signature p hp).ascribed, (h.signature p hp).default⟩

end FunctionInfo.Settled

namespace Arena

variable {a b : Arena}

theorem settled_empty : Settled {} where
  cls _ := ⟨Table.all_empty, fun _ h => absurd h (Option.not_mem_none _)⟩
  object _ := Table.all_empty
  function _ := ⟨fun _ h => absurd h List.not_mem_nil, fun _ h => absurd h (Option.not_mem_none _),
    fun _ h => absurd h (Option.not_mem_none _), fun _ h => absurd h List.not_mem_nil⟩
  module _ := Table.all_empty

namespace Settled

section Changes

variable (h : a.Settled)
include h

theorem modifyClass (id : ClassId) {f : ClassInfo → ClassInfo} (hf : ∀ c, c.Settled → (f c).Settled) :
    (a.modifyClass id f).Settled :=
  { h with cls := fun other => getD_modify_rec (h.cls other) fun _ => hf _ (h.cls other) }

theorem keepInherited (id : ClassId) {merged : Table Slot}
    (hm : merged.All fun slot => slot.type.Held) : (a.keepInherited id merged).Settled := by
  have hs := h.modifyClass id (f := fun c => { c with inherited := some merged }) fun _ hc =>
    { hc with inherited := fun _ heq => Option.mem_some.1 heq ▸ hm }
  exact ⟨hs.cls, hs.object, hs.function, hs.module⟩

theorem modifyObject (id : ObjectId) {f : ObjectInfo → ObjectInfo}
    (hf : ∀ o, o.overlay.All Ty.Settled → (f o).overlay.All Ty.Settled) :
    (a.modifyObject id f).Settled :=
  { h with
    object := fun other => getD_modify_rec (p := fun o : ObjectInfo => o.overlay.All Ty.Settled)
      (h.object other) fun _ => hf _ (h.object other) }

theorem modifyFunction (id : FunctionId) {f : FunctionInfo → FunctionInfo}
    (hf : ∀ g, g.Settled → (f g).Settled) : (a.modifyFunction id f).Settled :=
  { h with function := fun other => getD_modify_rec (h.function other) fun _ => hf _ (h.function other) }

theorem modifyModule (id : ModuleId) {f : ModuleInfo → ModuleInfo}
    (hf : ∀ m, m.exports.All Ty.Settled → (f m).exports.All Ty.Settled) :
    (a.modifyModule id f).Settled :=
  { h with
    module := fun other => getD_modify_rec (p := fun m : ModuleInfo => m.exports.All Ty.Settled)
      (h.module other) fun _ => hf _ (h.module other) }

theorem putOverlay (id : ObjectId) (name : String) {t : Ty} (ht : t.Settled) :
    (a.putOverlay id name t).Settled :=
  h.modifyObject id fun _ ho => ho.insert name ht

theorem putMember (id : ClassId) (name : String) {t : Ty} (ht : t.Settled) :
    (a.putMember id name (.ofType t)).Settled := by
  refine h.modifyClass id fun _ hc => { hc with attributes := hc.attributes.insert name ?_ }
  rw [Slot.type_ofType]
  exact ht.held

theorem addClass {info : ClassInfo} (hinfo : info.Settled) : (a.addClass info).2.Settled :=
  { h with cls := fun other => getD_push_rec (fun _ => h.cls other) fun _ => hinfo }

theorem addObject (cls : ClassId) : (a.addObject cls).2.Settled :=
  { h with
    object := fun other => getD_push_rec (p := fun o : ObjectInfo => o.overlay.All Ty.Settled)
      (fun _ => h.object other) fun _ => Table.all_empty }

theorem addFunction {info : FunctionInfo} (hinfo : info.Settled) : (a.addFunction info).2.Settled :=
  { h with function := fun other => getD_push_rec (fun _ => h.function other) fun _ => hinfo }

theorem addModule {info : ModuleInfo} (hinfo : info.exports.All Ty.Settled) :
    (a.addModule info).2.Settled :=
  { h with
    module := fun other => getD_push_rec (p := fun m : ModuleInfo => m.exports.All Ty.Settled)
      (fun _ => h.module other) fun _ => hinfo }

end Changes

theorem merging : Merging Settled fun _ _ merged => merged.All fun slot => slot.type.Held where
  kept h hkept := (h.cls _).inherited _ hkept
  empty _ := Table.all_empty
  older h _ hmerged habove := all_addMissing (all_addMissing hmerged (h.cls _).attributes) habove
  other _ hmerged := hmerged
  keep h hmerged := h.keepInherited _ hmerged

theorem inherited (h : a.Settled) (id : ClassId) :
    (a.inherited id).1.All (fun slot => slot.type.Held) ∧ (a.inherited id).2.Settled := by
  have hmerged := merging.inherited h id
  exact ⟨hmerged.1, hmerged.2.1⟩

theorem classLookup (h : a.Settled) (id : ClassId) (name : String) :
    (∀ slot ∈ (a.classLookup id name).1, slot.type.Held) ∧ (a.classLookup id name).2.Settled := by
  unfold Arena.classLookup
  split
  · rename_i slot hslot
    exact ⟨fun _ hs => Option.mem_some.1 hs ▸ (h.cls id).attributes.of_get? hslot, h⟩
  · have hmerged := h.inherited id
    exact ⟨fun _ hs => hmerged.1.of_get? hs, hmerged.2⟩

theorem objectLookup (h : a.Settled) (id : ObjectId) (name : String) :
    (∀ slot ∈ (a.objectLookup id name).1, slot.type.Held) ∧ (a.objectLookup id name).2.Settled := by
  unfold Arena.objectLookup
  split
  · rename_i t ht
    exact ⟨fun _ hs => Option.mem_some.1 hs ▸ ((h.object id).of_get? ht).held, h⟩
  · exact h.classLookup _ name

theorem component (h : a.Settled) (t : Ty) (part : String) : (a.component t part).2.Settled := by
  cases t with
  | classObj id => exact (h.classLookup id part).2
  | object id => exact (h.objectLookup id part).2
  | _ => exact h

end Settled

/-- A class has been announced to have a member that has no value yet. -/
def Announces (a : Arena) (id : ClassId) (name : String) : Prop :=
  (a.classLookup id name).1.map Slot.type = some .undefined

structure Reading.Settled (a : Arena) (t : Ty) (name : String) (r : Reading) : Prop where
  arena : r.arena.Settled
  type : r.type.Settled ∨ r.type = .undefined ∧ ∃ id, t = .classObj id ∧ a.Announces id name

theorem Reading.Settled.held {t : Ty} {name : String} {r : Reading} (h : r.Settled a t name) :
    r.type.Held :=
  h.type.symm.imp_left And.left

theorem settled_hit {t s : Ty} {name : String} (h : b.Settled) (hs : s.Settled) :
    (b.hit s).Settled a t name :=
  ⟨h, .inl hs⟩

theorem settled_miss {t : Ty} {name : String} (h : b.Settled) (findings : List Finding) :
    (b.miss findings).Settled a t name :=
  ⟨h, .inl .any⟩

namespace Settled

open Ty.Settled (stable)

variable (h : a.Settled) (name : String) (confidence : Float)
include h

theorem readClass (id : ClassId) :
    (a.readClass id name confidence).Settled a (.classObj id) name := by
  unfold Arena.readClass
  split
  · exact settled_hit h (.prim _)
  · have hlookup := h.classLookup id name
    simp only
    split
    · rename_i slot hslot
      refine ⟨hlookup.2, ((hlookup.1 slot hslot).symm).imp_right fun hnone => ⟨hnone, id, rfl, ?_⟩⟩
      rw [Announces, hslot, Option.map_some]
      exact congrArg some hnone
    · exact settled_hit hlookup.2 (stable.objectMethod? ‹_›)
    · split <;> exact settled_miss hlookup.2 _

/-- An object does not tell what its class only announces from what can be anything. -/
theorem readObject (id : ObjectId) : (a.readObject id name confidence).Settled a (.object id) name := by
  unfold Arena.readObject
  simp only
  split
  · exact settled_hit h (.classObj _)
  have hlookup := h.objectLookup id name
  split
  · split
    · exact settled_hit hlookup.2 (.method _ _)
    · exact settled_hit hlookup.2 (.function _)
    · exact settled_hit hlookup.2 (.function _)
  · rename_i t hslot
    refine settled_hit hlookup.2 ?_
    split
    · exact .any
    · exact (hlookup.1 _ hslot).settled (Bool.eq_false_iff.2 ‹_›)
  · split
    · exact settled_hit hlookup.2 (stable.objectMethod? ‹_›)
    · split
      · exact settled_miss hlookup.2 _
      · exact settled_miss (hlookup.2.putOverlay id name .any) _

theorem readSingle {t : Ty} (ht : t.Settled) : (a.readSingle t name confidence).Settled a t name := by
  have method : ((Builtin.objectMethod? name).getD .any).Settled := by
    cases hmethod : Builtin.objectMethod? name with
    | none => exact .any
    | some method => exact stable.objectMethod? hmethod
  cases t with
  | prim p =>
    simp only [Arena.readSingle]
    split
    · exact settled_hit h (stable.prim_member? ‹_›)
    · split
      · exact settled_hit h (stable.specialCallable name)
      · split <;> exact settled_miss h _
  | container c =>
    simp only [Arena.readSingle]
    split
    · exact settled_hit h (stable.member? ht ‹_›)
    · split
      · exact settled_hit h (stable.specialCallable name)
      · exact settled_miss h _
  | classObj id => exact h.readClass name confidence id
  | object id => exact h.readObject name confidence id
  | function | method =>
    simp only [Arena.readSingle]
    split
    iterate 3 exact settled_hit h (.prim _)
    · exact settled_hit h ht
    · exact settled_hit h method
  | module id =>
    simp only [Arena.readSingle]
    split
    · exact settled_hit h (.prim _)
    · split
      · exact settled_hit h ((h.module id).of_get? ‹_›)
      · exact settled_miss h _
  | any | undefined | builtin | union => exact settled_hit h .any

theorem readAttribute {t : Ty} (ht : t.Settled) :
    (a.readAttribute t name confidence).Settled a t name := by
  -- By induction on the size of the type: a union is read alternative by alternative, and the union of
  -- what was read leaves out what is undefined.
  induction t using WellFounded.induction (measure (sizeOf : Ty → Nat)).wf generalizing a confidence with
  | _ t ih =>
    rw [Arena.readAttribute.eq_def]
    split
    · exact settled_hit h .any
    split
    · exact settled_hit h (.prim _)
    split
    · rename_i u _
      have hfold := List.foldlRecOn u.items.attach
        (fun (state : List Ty × List Float × Reading) item =>
          let next := Arena.readAttribute state.2.2.arena item.1.1 name item.1.2
          (state.1 ++ [next.type], state.2.1 ++ [item.1.2],
            { next with found := state.2.2.found || next.found
                        findings := state.2.2.findings ++ next.findings }))
        (b := ([], [], { type := .any, found := false, arena := a }))
        (motive := fun state => (∀ t ∈ state.1, t.Held) ∧ state.2.2.arena.Settled)
        ⟨fun _ h => absurd h List.not_mem_nil, h⟩ fun state hstate item _ => by
          have hmem := (List.of_mem_zip item.2).1
          have hnext := ih item.1.1 (Ty.sizeOf_lt_of_mem_union hmem) hstate.2 item.1.2
            (ht.ofUnion _ hmem)
          exact ⟨List.forall_mem_append.2 ⟨hstate.1, List.forall_mem_singleton.2 hnext.held⟩, hnext.arena⟩
      exact ⟨hfold.2, .inl (Ty.settled_oneOf _ hfold.1)⟩
    · exact h.readSingle name confidence ht

theorem announces_of_undefined {t : Ty} (ht : t.Settled)
    (hread : (a.readAttribute t name confidence).type = .undefined) :
    ∃ id, t = .classObj id ∧ a.Announces id name := by
  rcases (h.readAttribute name confidence ht).type with hsettled | ⟨-, hannounced⟩
  · rw [hread] at hsettled
    cases hsettled
  · exact hannounced

end Settled

namespace Settled

theorem merged {old? : Option Ty} {value : Ty} (hold : ∀ t ∈ old?, t.Held) (hvalue : value.Settled) :
    (a.merged old? value).Settled := by
  unfold Arena.merged
  split
  · split
    · exact Ty.settled_oneOf_pair (hold _ rfl) hvalue.held
    · exact hvalue
  · exact hvalue

theorem mergedSlot {slot? : Option Slot} {value : Ty} (hslot : ∀ slot ∈ slot?, slot.type.Held)
    (hvalue : value.Settled) : (a.merged (slot?.map Slot.type) value).Settled := by
  refine merged (fun t ht => ?_) hvalue
  obtain ⟨slot, hs, rfl⟩ := Option.map_eq_some_iff.1 ht
  exact hslot slot hs

theorem setAttribute (h : a.Settled) (t : Ty) {value : Ty} (hvalue : value.Settled) (name : String) :
    (a.setAttribute t name value).2.Settled := by
  apply setAttribute_of_single _ h
  intro s b c _ hstep hb
  cases hstep with
  | none => exact hb
  | cls id _ =>
    have hlookup := hb.classLookup id name
    exact hlookup.2.putMember id name (mergedSlot hlookup.1 hvalue)
  | object id _ =>
    have hlookup := hb.objectLookup id name
    exact hlookup.2.putOverlay id name (mergedSlot hlookup.1 hvalue)

theorem deleteAttribute (h : a.Settled) (t : Ty) (name : String) :
    (a.deleteAttribute t name).2.Settled := by
  cases t with
  | object id => exact h.modifyObject id fun _ ho => ho.erase name
  | classObj id =>
    exact h.modifyClass id fun _ hc => { hc with attributes := hc.attributes.erase name }
  | _ => exact h

theorem replaceAttribute (h : a.Settled) (t : Ty) (name : String) {value : Ty} (hvalue : value.Settled) :
    (a.replaceAttribute t name value).Settled := by
  cases t with
  | object id => exact h.putOverlay id name hvalue
  | classObj id => exact h.putMember id name hvalue
  | _ => exact h

end Settled

end Arena

def Scopes.Settled (s : Scopes) : Prop :=
  ∀ id, (s.scopeAt id).bindings.All fun b => b.type.Settled

namespace Scopes

variable {s t : Scopes} {a : Arena}

theorem settled_empty : Settled {} := by
  intro id
  let p (scope : Scope) : Prop := scope.bindings.All fun b => b.type.Settled
  have hpush : ∀ i, p ((#[].push { name := "__global__" } : Array Scope).getD i default) := fun _ =>
    getD_push_rec (fun _ => Table.all_empty) fun _ => Table.all_empty
  exact hpush _

namespace Settled

section Reading

variable (h : s.Settled)
include h

theorem of_lookupFrom {start : ScopeId} {name : String} {b : Binding}
    (hb : s.lookupFrom start name = some b) : b.type.Settled := by
  obtain ⟨id, -, hget⟩ := List.exists_of_findSome?_eq_some hb
  exact (h id).of_get? hget

theorem of_lookup {name : String} {b : Binding} (hb : s.lookup name = some b) : b.type.Settled := by
  unfold lookup at hb
  split at hb
  · rename_i found hfound
    obtain ⟨id, -, hget⟩ := Option.bind_eq_some_iff.1 hfound
    exact Option.some.inj hb ▸ (h id).of_get? hget
  · exact h.of_lookupFrom hb

theorem find (name : String) : (s.find name).Settled := by
  unfold Scopes.find
  cases hb : s.lookup name with
  | none => exact .any
  | some b => exact h.of_lookup hb

theorem of_visible? {id : ScopeId} {name : String} {found : Ty × Bool}
    (hfound : s.visible? id name = some found) : found.1.Settled := by
  unfold visible? at hfound
  split at hfound
  · rename_i b hget
    exact Option.some.inj hfound ▸ (h id).of_get? hget
  · obtain ⟨b, hb, rfl⟩ := Option.map_eq_some_iff.1 hfound
    exact h.of_lookup hb

omit h in
theorem findDotted (ha : a.Settled) (name : String) : (s.findDotted a name).2.Settled := by
  unfold Scopes.findDotted
  split
  · exact ha
  · rename_i first rest _
    exact List.foldlRecOn rest (fun (state : Ty × Arena) part => state.2.component state.1 part)
      (b := (s.find first, a)) (motive := fun state => state.2.Settled) ha
      fun state hstate part _ => hstate.component state.1 part

end Reading

section Changes

variable (h : s.Settled)
include h

theorem of_all (hall : t.all = s.all) : t.Settled := by
  intro id
  rw [scopeAt, hall]
  exact h id

theorem modifyScope (id : ScopeId) {f : Scope → Scope}
    (hf : ∀ scope : Scope, (scope.bindings.All fun b => b.type.Settled) →
      (f scope).bindings.All fun b => b.type.Settled) : (s.modifyScope id f).Settled := by
  intro other
  refine getD_modify_rec (p := fun scope : Scope => scope.bindings.All fun b => b.type.Settled) (h other) ?_
  intro _
  exact hf _ (h other)

theorem bind (id : ScopeId) (name : String) {b : Binding} (hb : b.type.Settled) :
    (s.bind id name b).Settled :=
  h.modifyScope id fun _ hs => hs.insert name hb

theorem set (name : String) {t : Ty} (ht : t.Settled) (confidence : Float) :
    (s.set name t confidence).Settled :=
  h.bind _ name ht

theorem rebound (id : ScopeId) (name : String) {value : Ty} (hvalue : value.Settled)
    (confidence : Float) : (s.rebound a id name value confidence).1.Settled := by
  unfold Scopes.rebound
  split
  · exact hvalue
  · rename_i old sameScope hold
    split
    · exact hvalue
    · cases sameScope with
      | false => exact hvalue
      | true => exact Ty.settled_oneOf_pair (h.of_visible? hold).held hvalue.held

theorem add (name : String) {value : Ty} (hvalue : value.Settled) (confidence : Float) :
    (s.add a name value confidence).2.Settled :=
  h.bind _ name (h.rebound _ name hvalue confidence)

theorem addAscribed (name : String) {ascribed value : Ty} (hascribed : ascribed.Settled)
    (hvalue : value.Settled) (confidence : Float) :
    (s.addAscribed a name ascribed value confidence).2.Settled := by
  unfold Scopes.addAscribed
  split
  · exact h.add name hascribed confidence
  · split
    · exact h.add name hvalue confidence
    · exact h.add name hascribed confidence

theorem update (name : String) {t : Ty} (ht : t.Settled) : (s.update name t).Settled := by
  unfold Scopes.update
  split
  · exact h.bind _ name ht
  · exact h.set name ht 1.0

theorem remove (name : String) : (s.remove name).2.Settled := by
  unfold Scopes.remove
  split
  · exact h.modifyScope _ fun _ hs => hs.erase name
  · exact h

theorem redirect (name : String) (id : ScopeId) : (s.redirect name id).Settled :=
  h.modifyScope _ fun _ hs => hs

theorem declareNonlocal (name : String) : (s.declareNonlocal name).Settled := by
  unfold Scopes.declareNonlocal
  simp only
  split
  · exact h.redirect name _
  · exact h

theorem mergeBinding (name : String) {b : Binding} (hb : b.type.Settled) :
    (mergeBinding a s name b).Settled := by
  refine h.bind _ name ?_
  dsimp only
  split
  · rename_i existing hexisting
    split
    · exact Ty.settled_oneOf_pair (h.of_lookup hexisting).held hb.held
    · exact hb
  · exact hb

theorem exitBranch (a : Arena) : (s.exitBranch a).Settled := by
  unfold Scopes.exitBranch
  split
  · exact h
  · rename_i parent hparent
    have hmerged := List.foldlRecOn (s.here.bindings.entries.filter fun entry => !entry.2.narrowed)
      (fun s entry => Scopes.mergeBinding a s entry.1 entry.2) (b := { s with current := parent })
      (motive := Scopes.Settled) (h.of_all rfl) fun t ht entry hentry =>
        mergeBinding ht entry.1 (h s.current entry (List.mem_filter.1 hentry).1)
    exact of_all hmerged rfl

theorem of_push {scope : Scope} (hall : t.all = s.all.push scope)
    (hscope : scope.bindings.All fun b => b.type.Settled) : t.Settled := by
  intro id
  rw [scopeAt, hall]
  exact getD_push_rec (p := fun scope : Scope => scope.bindings.All fun b => b.type.Settled)
    (fun _ => h id) fun _ => hscope

theorem enter (name : String) : (s.enter name).2.Settled :=
  h.of_push rfl Table.all_empty

theorem enterFunction (name : String) (captured : ScopeId) {params : List (String × Ty)}
    (hparams : ∀ param ∈ params, param.2.Settled) :
    (s.enterFunction name captured params).2.Settled := by
  refine h.of_push rfl (Table.All.insertMany (h captured) fun item hitem => ?_)
  obtain ⟨param, hparam, rfl⟩ := List.mem_map.1 hitem
  exact hparams param hparam

end Changes

end Settled

end Scopes

/-- A world in which all values are settled, but for members of classes that have none yet. -/
structure World.Settled (w : World) : Prop where
  arena : w.arena.Settled
  scopes : w.scopes.Settled

end Credence

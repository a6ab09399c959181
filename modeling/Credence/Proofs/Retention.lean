import Credence.Proofs.Contents
import Credence.Proofs.Joins
import Credence.Proofs.Kinship
import Credence.Proofs.Preorder
import Credence.Proofs.Resolution
import Credence.Proofs.WellFormed

namespace Credence

namespace Ty

variable {P : Ty → Prop} {t : Ty}

/-- Composed types have what types without parts have and what passes to all that is made of types. -/
theorem Composed.of_stable (hP : Stable P) (leaf : ∀ {t : Ty}, t.isLeaf = true → P t) (h : t.Composed) :
    P t := by
  induction h with
  | leaf h => exact leaf h
  | ofElts kind _ ih => exact hP.ofElts kind ih
  | ofWeighted kind probs _ ih =>
    apply Stable.foldl (hP.empty kind)
    intro c hc item hitem
    have helt := ih item.1 (List.of_mem_zip hitem).1
    exact hP.pushWith item.2 hc helt fun _ hv => absurd hv (Option.not_mem_none _)
  | ofPairs _ _ hkeys hvalues => exact hP.dictOf hkeys hvalues
  | push _ _ _ hc helt hvalue => exact hP.pushWith 1.0 hc helt hvalue
  | oneOf weights? _ ih => exact hP.oneOf weights? ih

theorem WellFormed.of_leaf (h : t.isLeaf = true) : WellFormed false t := by
  cases t with
  | container | union => cases h
  | builtin b => exact .builtin nofun nofun
  | _ => exact .leaf rfl nofun

theorem WellFormed.populated {signatures : Bool} (h : WellFormed signatures t) : t.Populated := by
  induction h with
  | leaf h _ => exact .leaf h
  | builtin => exact .leaf rfl
  | container _ _ _ elts values => exact .container elts values
  | union formed _ elts =>
    have htwo := formed.two
    exact .union (List.ne_nil_of_length_pos (by omega)) elts

theorem Composed.populated (h : t.Composed) : t.Populated :=
  (h.of_stable WellFormed.stable WellFormed.of_leaf).populated

end Ty

namespace Arena

variable {a b : Arena} {P : Ty → Prop} {old value s t : Ty} {old? : Option Ty} {xs : List Ty}
  {w : Option (List Float)}

theorem isSubtype_oneOf_of_mem (hs : s.Composed) (hxs : ∀ x ∈ xs, x.Composed) (ht : t ∈ xs)
    (hdefined : t.isUndefined = false) (h : a.isSubtype s t = true) :
    a.isSubtype s (.oneOf xs w) = true := by
  have hnormal (x : Ty) (hx : x ∈ xs) : x.Normal := (hxs x hx).built.normal
  have hne := Union.given_ne_nil hxs ⟨t, ht, hdefined⟩
  have hsame := Ty.sameMembers_parts_oneOf (w := w) hnormal hne
  have hparts : (Ty.oneOf xs w).parts ≠ [] := fun hnil => hne (hsame.eq_nil hnil)
  obtain ⟨p, hp, hsp⟩ := (isSubtype_right_iff hs.built.normal hs.parts_ne (hxs t ht).parts_ne).1 h
  have hp : p ∈ Union.given xs := (Union.mem_given_of_normal hnormal).2 ⟨t, ht, hdefined, hp⟩
  exact (isSubtype_right_iff hs.built.normal hs.parts_ne hparts).2
    (exists_isSubtype_right hsame.symm hs.built.normal ⟨p, hp, hsp⟩)

theorem exists_alike_part_oneOf (hxs : ∀ x ∈ xs, x.Composed) (ht : t ∈ xs) (hdefined : t.isUndefined = false)
    {p : Ty} (hp : p ∈ t.parts) : ∃ q ∈ (Ty.oneOf xs w).parts, p.alike q = true := by
  have hnormal (x : Ty) (hx : x ∈ xs) : x.Normal := (hxs x hx).built.normal
  have hsame := Ty.sameMembers_parts_oneOf (w := w) hnormal (Union.given_ne_nil hxs ⟨t, ht, hdefined⟩)
  obtain ⟨q, hq, hqp⟩ :=
    hsame.back p ((Union.mem_given_of_normal hnormal).2 ⟨t, ht, hdefined, hp⟩)
  exact ⟨q, hq, hqp.symm.alike⟩

/-- What is stored after a write: it fits the value, and what it did not fit is kept. -/
structure Retains (a : Arena) (old? : Option Ty) (value stored : Ty) : Prop where
  fits : a.isSubtype value stored = true
  keeps : ∀ old ∈ old?, old.isUnknown = false → value.isUnknown = false → a.isSubtype value old = false →
    ∀ p ∈ old.parts, ∃ q ∈ stored.parts, p.alike q = true

theorem isUndefined_of_isUnknown_eq_false (h : t.isUnknown = false) : t.isUndefined = false := by
  cases t with
  | undefined => cases h
  | _ => rfl

theorem isUnknown_of_isSubtype_eq_false (h : a.isSubtype s t = false) : s.isUnknown = false := by
  cases hs : s.isUnknown with
  | false => rfl
  | true =>
    rw [isSubtype_of_isUnknown_left hs] at h
    cases h

theorem merged_of_fits (h : old.isUnknown = true ∨ a.isSubtype value old = true) :
    a.merged (some old) value = value := by
  unfold merged
  rcases h with h | h <;> simp [h]

theorem merged_of_not_fits (hold : old.isUnknown = false) (h : a.isSubtype value old = false) :
    a.merged (some old) value = .oneOf [old, value] := by
  unfold merged
  simp [hold, h]

theorem retains_merged (a : Arena) (hold : ∀ old ∈ old?, old.Composed) (hvalue : value.Composed) :
    a.Retains old? value (a.merged old? value) := by
  have hself : a.isSubtype value value = true := a.isSubtype_self hvalue.populated
  cases old? with
  | none => exact ⟨hself, nofun⟩
  | some old =>
    cases hknown : old.isUnknown with
    | true =>
      rw [merged_of_fits (.inl hknown)]
      refine ⟨hself, fun o ho hunknown => ?_⟩
      rw [← Option.some.inj ho, hknown] at hunknown
      cases hunknown
    | false =>
      cases hfits : a.isSubtype value old with
      | true =>
        rw [merged_of_fits (.inr hfits)]
        refine ⟨hself, fun o ho _ _ hnot => ?_⟩
        rw [← Option.some.inj ho, hfits] at hnot
        cases hnot
      | false =>
        have hxs : ∀ x ∈ [old, value], x.Composed :=
          List.forall_mem_cons.2 ⟨hold old rfl, List.forall_mem_singleton.2 hvalue⟩
        have hdefined := isUndefined_of_isUnknown_eq_false (isUnknown_of_isSubtype_eq_false hfits)
        rw [merged_of_not_fits hknown hfits]
        constructor
        · exact isSubtype_oneOf_of_mem hvalue hxs (by simp) hdefined hself
        · intro o ho hunknown _ _ p hp
          cases Option.some.inj ho
          exact exists_alike_part_oneOf hxs List.mem_cons_self (isUndefined_of_isUnknown_eq_false hunknown) hp

theorem Kin.merged_eq (h : a.Kin b) (old? : Option Ty) (value : Ty) :
    b.merged old? value = a.merged old? value := by
  unfold merged
  simp only [h.isSubtype_eq]

/-- The types that are written on classes and objects and that classes keep of their bases. -/
structure Holds (P : Ty → Prop) (a : Arena) : Prop where
  attributes : ∀ id, (a.classAt id).attributes.All fun slot => P slot.type
  inherited : ∀ id, ∀ merged ∈ (a.classAt id).inherited, merged.All fun slot => P slot.type
  overlay : ∀ id, (a.objectAt id).overlay.All P

theorem Holds.keepInherited (h : a.Holds P) (id : ClassId) {merged : Table Slot}
    (hmerged : merged.All fun slot => P slot.type) : (a.keepInherited id merged).Holds P where
  attributes c := by
    rw [classAt_keepInherited]
    split
    · exact h.attributes c
    · exact h.attributes c
  inherited c kept hkept := by
    rw [classAt_keepInherited] at hkept
    split at hkept
    · exact Option.mem_some.1 hkept ▸ hmerged
    · exact h.inherited c kept hkept
  overlay := h.overlay

theorem merging_holds (P : Ty → Prop) :
    Merging (Holds P) fun _ _ merged => merged.All fun slot => P slot.type where
  kept h hkept := h.inherited _ _ hkept
  empty _ := Table.all_empty
  older h _ hmerged habove := all_addMissing (all_addMissing hmerged (h.attributes _)) habove
  other _ hmerged := hmerged
  keep h hmerged := h.keepInherited _ hmerged

theorem Holds.classLookup (h : a.Holds P) (id : ClassId) (name : String) :
    ∀ t ∈ (a.classLookup id name).1.map Slot.type, P t := by
  unfold Arena.classLookup
  intro t ht
  obtain ⟨slot, hslot, rfl⟩ := Option.map_eq_some_iff.1 ht
  split at hslot
  · rename_i own hown
    cases hslot
    exact (h.attributes id).of_get? hown
  · exact ((merging_holds P).inherited h id).1.of_get? hslot

theorem Holds.objectLookup (h : a.Holds P) (id : ObjectId) (name : String) :
    ∀ t ∈ (a.objectLookup id name).1.map Slot.type, P t := by
  unfold Arena.objectLookup
  split
  · rename_i own hown
    intro t ht
    cases ht
    exact (h.overlay id).of_get? hown
  · exact h.classLookup _ name

theorem writeAttribute_object (a : Arena) {id : ObjectId} (hid : id.val < a.objects.size) (name : String)
    (value : Ty) : ∃ b, a.writeAttribute (.object id) name value = .ok b ∧ a.Kin b ∧
      (b.objectAt id).overlay.get? name =
        some (a.merged ((a.objectLookup id name).1.map Slot.type) value) := by
  have hkin := a.kin_objectLookup id name
  refine ⟨_, by rw [writeAttribute, setAttribute.eq_def], hkin.trans (kin_putOverlay _ id name _), ?_⟩
  have hsize : id.val < (a.objectLookup id name).2.objects.size := by
    have hobjects : (a.objectLookup id name).2.objects = a.objects :=
      (merging_of_keep (I := fun b => b.objects = a.objects) fun _ _ _ h => h).objectLookup rfl id name
    rwa [hobjects]
  rw [putOverlay, objectAt_modifyObject_eq, if_pos ⟨rfl, hsize⟩, Table.get?_insert, if_pos (beq_self_eq_true _),
    hkin.merged_eq]

theorem writeAttribute_class (a : Arena) {id : ClassId} (hid : id.val < a.classes.size) (name : String)
    (value : Ty) : ∃ b, a.writeAttribute (.classObj id) name value = .ok b ∧ a.Kin b ∧
      (b.classAt id).attributes.get? name =
        some (.ofType (a.merged ((a.classLookup id name).1.map Slot.type) value)) := by
  have hkin := a.kin_classLookup id name
  refine ⟨_, by rw [writeAttribute, setAttribute.eq_def], hkin.trans (kin_putMember _ id name _), ?_⟩
  have hsize : id.val < (a.classLookup id name).2.classes.size := by
    have hclasses : (a.classLookup id name).2.classes.size = a.classes.size :=
      (merging_of_keep (I := fun b => b.classes.size = a.classes.size)
        fun _ _ _ h => Array.size_modify.trans h).classLookup rfl id name
    rwa [hclasses]
  rw [putMember, classAt_modifyClass_eq, if_pos ⟨rfl, hsize⟩, Table.get?_insert, if_pos (beq_self_eq_true _),
    hkin.merged_eq]

end Arena

namespace Scopes

variable {s t u : Scopes} {name other : String}

/-- All scopes that are named are there, and each binds a name once. -/
structure Intact (s : Scopes) : Prop where
  current : s.current.val < s.all.size
  parents : ∀ id, ∀ p ∈ (s.scopeAt id).parent, p.val < s.all.size
  redirects : ∀ id name, ∀ p ∈ (s.scopeAt id).redirects.get? name, p.val < s.all.size
  names : ∀ id, (s.scopeAt id).bindings.keys.Nodup

def Holds (P : Ty → Prop) (s : Scopes) : Prop :=
  ∀ id, (s.scopeAt id).bindings.All fun b => P b.type

theorem target_lt (hcurrent : s.current.val < s.all.size)
    (hredirects : ∀ p ∈ s.here.redirects.get? name, p.val < s.all.size) :
    (s.target name).val < s.all.size := by
  unfold target
  cases hget : s.here.redirects.get? name with
  | none => exact hcurrent
  | some id => exact hredirects id hget

/-- A name is bound in the same scopes to the same, and all declarations are the same. -/
structure SameName (name : String) (s t : Scopes) : Prop extends Steady s t where
  redirects : ∀ id, (t.scopeAt id).redirects = (s.scopeAt id).redirects
  binding : ∀ id, (t.scopeAt id).bindings.get? name = (s.scopeAt id).bindings.get? name

namespace SameName

theorem refl (name : String) (s : Scopes) : SameName name s s :=
  { Steady.refl s with redirects := fun _ => rfl, binding := fun _ => rfl }

theorem trans (h : SameName name s t) (k : SameName name t u) : SameName name s u :=
  { h.toSteady.trans k.toSteady with
    redirects := fun id => (k.redirects id).trans (h.redirects id)
    binding := fun id => (k.binding id).trans (h.binding id) }

variable (h : SameName name s t)
include h

theorem target_eq : t.target name = s.target name := by
  unfold target here
  rw [h.current, h.redirects]

theorem lookup_eq : t.lookup name = s.lookup name := by
  unfold lookup lookupFrom chain here
  simp only [h.current, h.redirects, h.size, h.walk, h.binding]

end SameName

theorem steady_bind (s : Scopes) (id : ScopeId) (name : String) (b : Binding) :
    s.Steady (s.bind id name b) := by
  apply Steady.trans _ (steady_touch _)
  apply steady_modifyScope
  exact fun _ => rfl

theorem sameName_bind (s : Scopes) (id : ScopeId) (hne : name ≠ other) (b : Binding) :
    SameName name s (s.bind id other b) :=
  { s.steady_bind id other b with
    redirects := fun o => by
      change ((s.modifyScope id _).scopeAt o).redirects = _
      rw [scopeAt_modifyScope]
      split <;> rfl
    binding := fun o => by
      change ((s.modifyScope id _).scopeAt o).bindings.get? name = _
      rw [scopeAt_modifyScope]
      split
      · rw [Table.get?_insert, if_neg (beq_eq_false_iff_ne.2 hne ▸ Bool.false_ne_true)]
      · rfl }

theorem get?_bind {id : ScopeId} (hid : id.val < s.all.size) (name : String) (b : Binding) :
    ((s.bind id name b).scopeAt id).bindings.get? name = some b := by
  rw [scopeAt_bind id hid, if_pos rfl, Table.get?_insert, if_pos (beq_self_eq_true _)]

/-- The type to which a scope itself binds a name, unless it is none. -/
def ownType? (s : Scopes) (id : ScopeId) (name : String) : Option Ty :=
  (((s.scopeAt id).bindings.get? name).map (·.type)).filter fun t => !t.isNone

theorem rebound_eq (s : Scopes) (a : Arena) (id : ScopeId) (name : String) (value : Ty) (confidence : Float) :
    (s.rebound a id name value confidence).1 = a.merged (s.ownType? id name) value := by
  unfold rebound visible? ownType?
  cases (s.scopeAt id).bindings.get? name with
  | none =>
    cases s.lookup name with
    | none => rfl
    | some b =>
      simp only [Option.map_some]
      split <;> rfl
  | some b =>
    simp only [Option.map_some, Option.filter_some]
    cases hnone : b.type.isNone with
    | true => simp [Arena.merged]
    | false =>
      cases hfits : b.type.isUnknown || a.isSubtype value b.type with
      | true =>
        rw [Bool.or_eq_true] at hfits
        have hkept : (b.type.isUnknown || false || value.isUnknown || a.isSubtype value b.type) = true := by
          rcases hfits with h | h <;> simp [h]
        rw [if_pos hkept]
        exact (Arena.merged_of_fits hfits).symm
      | false =>
        obtain ⟨hold, hfits⟩ := Bool.or_eq_false_iff.1 hfits
        simp [Arena.merged_of_not_fits hold hfits, hold, hfits, Arena.isUnknown_of_isSubtype_eq_false hfits]

theorem add_eq (s : Scopes) (a : Arena) (name : String) (value : Ty) (confidence : Float) :
    (s.add a name value confidence).2 =
      s.bind (s.target name) name { type := a.merged (s.ownType? (s.target name) name) value, confidence } := by
  rw [← rebound_eq s a (s.target name) name value confidence]
  rfl

/-- The same scopes from the place of another one. -/
def seenFrom (s : Scopes) (id : ScopeId) : Scopes :=
  { s with current := id }

def visibleType? (s : Scopes) (name : String) : Option Ty :=
  (s.lookup name).map (·.type)

theorem mergeBinding_eq (a : Arena) (s : Scopes) (name : String) (b : Binding) :
    mergeBinding a s name b =
      s.bind (s.target name) name
        { type := a.merged (s.visibleType? name) b.type, confidence := b.confidence } := by
  unfold mergeBinding visibleType?
  cases s.lookup name <;> rfl

theorem Holds.ownType {P : Ty → Prop} (h : s.Holds P) (id : ScopeId) (name : String) :
    ∀ t ∈ s.ownType? id name, P t := by
  intro t ht
  obtain ⟨b, hb, rfl⟩ := Option.map_eq_some_iff.1 (Option.filter_eq_some_iff.1 ht).1
  exact (h id).of_get? hb

theorem Holds.visibleType {P : Ty → Prop} (h : s.Holds P) (name : String) :
    ∀ t ∈ s.visibleType? name, P t := by
  intro t ht
  obtain ⟨b, hb, rfl⟩ := Option.map_eq_some_iff.1 ht
  unfold Scopes.lookup at hb
  split at hb
  · rename_i found hfound
    obtain ⟨id, -, hget⟩ := Option.bind_eq_some_iff.1 hfound
    cases hb
    exact (h id).of_get? hget
  · obtain ⟨id, -, hget⟩ := List.exists_of_findSome?_eq_some hb
    exact (h id).of_get? hget

theorem sameName_mergeBindings (a : Arena) (s : Scopes) {entries : List (String × Binding)}
    (h : ∀ entry ∈ entries, name ≠ entry.1) :
    SameName name s (entries.foldl (fun s entry => mergeBinding a s entry.1 entry.2) s) := by
  apply List.foldlRecOn entries _ (motive := SameName name s) (.refl name s)
  intro t ht entry hentry
  rw [mergeBinding_eq]
  exact ht.trans (t.sameName_bind _ (h entry hentry) _)

theorem exists_split_of_nodup {entries : List (String × Binding)} (hnodup : (entries.map (·.1)).Nodup)
    {entry : String × Binding} (hentry : entry ∈ entries) :
    ∃ before after, entries = before ++ entry :: after ∧ (∀ e ∈ before, entry.1 ≠ e.1) ∧
      ∀ e ∈ after, entry.1 ≠ e.1 := by
  obtain ⟨before, after, rfl⟩ := List.append_of_mem hentry
  refine ⟨before, after, rfl, ?_, ?_⟩
  all_goals
    rw [List.map_append, List.map_cons, List.nodup_middle, List.nodup_cons] at hnodup
    intro e he heq
    apply hnodup.1
    rw [heq, ← List.map_append]
    apply List.mem_map_of_mem
    simp [he]

/-- What a branch leaves behind is merged where the name is bound from outside. The other names that it binds
make no difference. -/
theorem get?_exitBranch (h : s.Intact) (a : Arena) {parent : ScopeId} (hparent : s.here.parent = some parent)
    {b : Binding} (hb : (name, b) ∈ s.here.bindings.entries) (hnarrowed : b.narrowed = false) :
    ((s.exitBranch a).scopeAt ((s.seenFrom parent).target name)).bindings.get? name =
      some
        { type := a.merged ((s.seenFrom parent).visibleType? name) b.type, confidence := b.confidence } := by
  have hnodup : ((s.here.bindings.entries.filter fun entry => !entry.2.narrowed).map (·.1)).Nodup :=
    (h.names s.current).sublist (List.filter_sublist.map _)
  obtain ⟨before, after, hsplit, hbefore, hafter⟩ :=
    exists_split_of_nodup hnodup (List.mem_filter.2 ⟨hb, by simp [hnarrowed]⟩)
  unfold exitBranch
  rw [hparent]
  simp only
  rw [hsplit, List.foldl_append, List.foldl_cons]
  change ((List.foldl _ (mergeBinding a (before.foldl _ (s.seenFrom parent)) name b) after).scopeAt _).bindings.get?
    name = _
  have hprev := sameName_mergeBindings a (s.seenFrom parent) hbefore
  generalize before.foldl _ (s.seenFrom parent) = t at hprev ⊢
  have hlast := sameName_mergeBindings a (mergeBinding a t name b) hafter
  rw [hlast.binding, mergeBinding_eq, visibleType?, hprev.lookup_eq, hprev.target_eq]
  apply get?_bind
  rw [hprev.size]
  exact target_lt (h.parents s.current parent hparent) (h.redirects parent name)

end Scopes

/-- No merge loses a type. A name that is bound again, an attribute that is written and a binding that leaves
a branch get a type that the new one fits and that lists what the old one listed if the new one did not
fit it. -/
theorem merges_retain (a : Arena) (s : Scopes) (ha : a.Holds Ty.Composed) (hs : s.Holds Ty.Composed)
    (hintact : s.Intact) (value : { t : Ty // t.Composed }) (name : String) (confidence : Float) :
    (∃ b, ((s.add a name value.val confidence).2.scopeAt (s.target name)).bindings.get? name = some b ∧
      a.Retains (s.ownType? (s.target name) name) value.val b.type) ∧
    (∀ id : ObjectId, id.val < a.objects.size →
      ∃ b t, a.writeAttribute (.object id) name value.val = .ok b ∧
        (b.objectAt id).overlay.get? name = some t ∧
        a.Retains ((a.objectLookup id name).1.map Slot.type) value.val t ∧
        ∀ x y, b.isSubtype x y = a.isSubtype x y) ∧
    (∀ id : ClassId, id.val < a.classes.size →
      ∃ b slot, a.writeAttribute (.classObj id) name value.val = .ok b ∧
        (b.classAt id).attributes.get? name = some slot ∧
        a.Retains ((a.classLookup id name).1.map Slot.type) value.val slot.type ∧
        ∀ x y, b.isSubtype x y = a.isSubtype x y) ∧
    ∀ parent, s.here.parent = some parent →
      ∀ entry ∈ s.here.bindings.entries, entry.2.narrowed = false →
        ∃ b, ((s.exitBranch a).scopeAt ((s.seenFrom parent).target entry.1)).bindings.get? entry.1 = some b ∧
          a.Retains ((s.seenFrom parent).visibleType? entry.1) entry.2.type b.type := by
  refine ⟨?_, ?_, ?_, ?_⟩
  · have htarget := Scopes.target_lt hintact.current (hintact.redirects s.current name)
    rw [Scopes.add_eq]
    exact ⟨_, Scopes.get?_bind htarget name _, a.retains_merged (hs.ownType _ name) value.property⟩
  · intro id hid
    obtain ⟨b, hwrite, hkin, hget⟩ := a.writeAttribute_object hid name value.val
    exact ⟨b, _, hwrite, hget, a.retains_merged (ha.objectLookup id name) value.property, hkin.isSubtype_eq⟩
  · intro id hid
    obtain ⟨b, hwrite, hkin, hget⟩ := a.writeAttribute_class hid name value.val
    refine ⟨b, _, hwrite, hget, ?_, hkin.isSubtype_eq⟩
    rw [Slot.type_ofType]
    exact a.retains_merged (ha.classLookup id name) value.property
  · intro parent hparent entry hentry hnarrowed
    have houter : (s.seenFrom parent).Holds Ty.Composed := hs
    exact ⟨_, Scopes.get?_exitBranch hintact a hparent hentry hnarrowed,
      a.retains_merged (houter.visibleType entry.1) (hs s.current entry hentry)⟩

def Arena.counting : Arena where
  classes := #[{ name := some "A", attributes := ⟨[("x", .value .int)]⟩ }]
  objects := #[{ cls := ⟨0⟩ }]

def Scopes.branching : Scopes where
  all := #[
    { name := "__global__", bindings := ⟨[("x", { type := .int, confidence := 1.0 })]⟩ },
    { name := "if", bindings := ⟨[("x", { type := .str, confidence := 1.0 })]⟩, parent := some ⟨0⟩ }]
  current := ⟨1⟩

theorem Arena.holds_counting : counting.Holds Ty.Composed where
  attributes
    | ⟨0⟩ => List.forall_mem_singleton.2 (.leaf rfl)
    | ⟨_ + 1⟩ => Table.all_empty
  inherited
    | ⟨0⟩ | ⟨_ + 1⟩ => fun _ h => absurd h (Option.not_mem_none _)
  overlay
    | ⟨0⟩ | ⟨_ + 1⟩ => Table.all_empty

theorem Scopes.holds_branching : branching.Holds Ty.Composed
  | ⟨0⟩ | ⟨1⟩ => List.forall_mem_singleton.2 (.leaf rfl)
  | ⟨_ + 2⟩ => Table.all_empty

theorem Scopes.intact_branching : branching.Intact where
  current := by decide
  parents
    | ⟨0⟩ | ⟨_ + 2⟩ => fun _ h => absurd h (Option.not_mem_none _)
    | ⟨1⟩ => fun p h => Option.some.inj h ▸ (by decide)
  redirects
    | ⟨0⟩, _ | ⟨1⟩, _ | ⟨_ + 2⟩, _ => fun _ h => absurd h (Option.not_mem_none _)
  names
    | ⟨0⟩ | ⟨1⟩ => List.nodup_singleton "x"
    | ⟨_ + 2⟩ => List.nodup_nil

/-- A text that is written on the object, and the one that leaves the branch, join the number. -/
theorem merges_retain_branching :
    Arena.counting.Holds Ty.Composed ∧ Scopes.branching.Holds Ty.Composed ∧ Scopes.branching.Intact ∧
      (∃ b t, Arena.counting.writeAttribute (.object ⟨0⟩) "x" .str = .ok b ∧
        (b.objectAt ⟨0⟩).overlay.get? "x" = some t ∧ b.isSubtype .str t = true ∧
        ∃ q ∈ t.parts, Ty.int.alike q = true) ∧
      ∃ b, ((Scopes.branching.exitBranch Arena.counting).scopeAt ⟨0⟩).bindings.get? "x" = some b ∧
        Arena.counting.isSubtype .str b.type = true ∧ ∃ q ∈ b.type.parts, Ty.int.alike q = true := by
  have hnot : Arena.counting.isSubtype .str .int = false := by
    rw [Arena.isSubtype]
    rfl
  obtain ⟨-, hobject, -, hbranch⟩ := merges_retain Arena.counting Scopes.branching Arena.holds_counting
    Scopes.holds_branching Scopes.intact_branching ⟨.str, .leaf rfl⟩ "x" 1.0
  refine ⟨Arena.holds_counting, Scopes.holds_branching, Scopes.intact_branching, ?_, ?_⟩
  · obtain ⟨b, t, hwrite, hget, hretains, horder⟩ := hobject ⟨0⟩ (by decide)
    refine ⟨b, t, hwrite, hget, ?_, ?_⟩
    · rw [horder]
      exact hretains.fits
    · exact hretains.keeps .int rfl rfl rfl hnot .int List.mem_cons_self
  · obtain ⟨b, hget, hretains⟩ := hbranch ⟨0⟩ rfl ("x", { type := .str, confidence := 1.0 })
      List.mem_cons_self rfl
    exact ⟨b, hget, hretains.fits, hretains.keeps .int rfl rfl rfl hnot .int List.mem_cons_self⟩

end Credence

import Credence.Check.Call
import Credence.Proofs.Acceptance
import Credence.Proofs.Normal

namespace Credence

/-- What a pass over items does to a table: how it makes the new entry of the name of an item from the old one, and
when that is no reason to complain. -/
structure Pass (σ ι : Type) where
  table : σ → Table Ty
  isSilent : σ → Prop
  key : ι → String
  value : ι → Option Ty → Option Ty
  isQuiet : ι → Option Ty → Prop

namespace Pass

variable {σ ι : Type} {P : Pass σ ι}

structure Leads (P : Pass σ ι) (items : List ι) (s t : σ) : Prop where
  own : ∀ i ∈ items, (P.table t).get? (P.key i) = P.value i ((P.table s).get? (P.key i))
  other : ∀ name ∉ items.map P.key, (P.table t).get? name = (P.table s).get? name
  nodup : (P.table s).keys.Nodup → (P.table t).keys.Nodup
  silent : P.isSilent t ↔ P.isSilent s ∧ ∀ i ∈ items, P.isQuiet i ((P.table s).get? (P.key i))

theorem leads_foldl {step : σ → ι → σ} (hstep : ∀ s i, P.Leads [i] s (step s i)) {items : List ι}
    (hitems : (items.map P.key).Nodup) (s : σ) : P.Leads items s (items.foldl step s) := by
  induction items generalizing s with
  | nil => exact ⟨nofun, fun _ _ => rfl, id, by simp⟩
  | cons i items ih =>
    obtain ⟨hi, hitems⟩ := List.nodup_cons.1 hitems
    have hone := hstep s i
    have hrest := ih hitems (step s i)
    -- The first step leaves the entries of the other items as they are.
    have hkept : ∀ j ∈ items, (P.table (step s i)).get? (P.key j) = (P.table s).get? (P.key j) := fun j hj =>
      hone.other _ fun hmem => hi (List.mem_singleton.1 hmem ▸ List.mem_map_of_mem hj)
    refine ⟨fun j hj => ?_, fun name hname => ?_, fun h => hrest.nodup (hone.nodup h), ?_⟩
    · obtain rfl | hj := List.mem_cons.1 hj
      · exact (hrest.other _ hi).trans (hone.own _ List.mem_cons_self)
      · exact (hrest.own j hj).trans (congrArg (P.value j) (hkept j hj))
    · have hname := not_or.1 (mt List.mem_cons.2 hname)
      exact (hrest.other name hname.2).trans (hone.other name (mt List.mem_singleton.1 hname.1))
    · rw [List.foldl_cons, hrest.silent, hone.silent, List.forall_mem_singleton, List.forall_mem_cons, and_assoc]
      refine and_congr_right fun _ => and_congr_right fun _ => forall₂_congr fun j hj => ?_
      rw [hkept j hj]

theorem leads_insert {i : ι} {s t : σ} {value : Ty}
    (htable : P.table t = (P.table s).insert (P.key i) value)
    (hvalue : P.value i ((P.table s).get? (P.key i)) = some value)
    (hsilent : P.isSilent t ↔ P.isSilent s ∧ P.isQuiet i ((P.table s).get? (P.key i))) : P.Leads [i] s t where
  own := List.forall_mem_singleton.2 (by rw [htable, hvalue, Table.get?_insert, if_pos (beq_self_eq_true _)])
  other name hname := by
    rw [htable, Table.get?_insert, if_neg]
    exact fun heq => hname (List.mem_singleton.2 (eq_of_beq heq))
  nodup h := htable ▸ Table.nodup_keys_insert _ _ _ h
  silent := by rw [hsilent, List.forall_mem_singleton]

theorem leads_of_table_eq {i : ι} {s t : σ} (htable : P.table t = P.table s)
    (hvalue : P.value i ((P.table s).get? (P.key i)) = (P.table s).get? (P.key i))
    (hsilent : P.isSilent t ↔ P.isSilent s ∧ P.isQuiet i ((P.table s).get? (P.key i))) : P.Leads [i] s t where
  own := List.forall_mem_singleton.2 (by rw [htable, hvalue])
  other _ _ := by rw [htable]
  nodup h := htable ▸ h
  silent := by rw [hsilent, List.forall_mem_singleton]

end Pass

namespace Signature

def Names (s : Signature) (name : String) : Prop :=
  name ∈ s.named.map (·.name)

instance (s : Signature) (name : String) : Decidable (s.Names name) :=
  inferInstanceAs (Decidable (name ∈ s.named.map (·.name)))

theorem any_named_iff {s : Signature} {name : String} : s.named.any (·.name == name) = true ↔ s.Names name := by
  simp [Names, List.any_eq_true]

/-- The values that a call gives to parameters by their position. -/
def placed (s : Signature) (values : List Ty) : List (String × Ty) :=
  (s.args.map (·.name)).zip values

/-- The value that a call gives to a name: by its position, or else by itself. -/
def given? (s : Signature) (values : List Ty) (keywords : List (String × Ty)) (name : String) : Option Ty :=
  ((s.placed values).lookup name).or (keywords.lookup name)

/-- The value of a parameter: the one that a call gives to it, or its default, or anything. -/
def argument (s : Signature) (values : List Ty) (keywords : List (String × Ty)) (p : ParamInfo) : Ty :=
  (s.given? values keywords p.name).getD (p.default.getD .any)

end Signature

/-- A value does for a parameter: it is unknown or none, or it fits a known annotation. -/
def Arena.Admits (a : Arena) (p : ParamInfo) (value : Ty) : Prop :=
  ∀ ascribed ∈ p.ascribed, ascribed.isUnknown = false → value.isUnknown = false → value.isNone = false →
    a.isSubtype value ascribed = true

/-- The type of a parameter with a value: a known annotation, if the value is unknown or none or does not fit it, or
else the value. -/
def Arena.held (a : Arena) (p : ParamInfo) (value : Ty) : Ty :=
  match p.ascribed with
  | some ascribed =>
    if !ascribed.isUnknown && (value.isUnknown || value.isNone || !a.isSubtype value ascribed) then ascribed else value
  | none => value

namespace FunctionInfo

variable {f : FunctionInfo} {a : Arena}

def placing : Pass (Table Ty) (String × Ty) where
  table := id
  isSilent _ := True
  key := Prod.fst
  value item _ := some item.2
  isQuiet _ _ := True

def naming (f : FunctionInfo) : Pass Bound (String × Ty) where
  table := Bound.table
  isSilent bound := bound.findings = []
  key := Prod.fst
  value item old := if f.signature.Names item.1 then old.or (some item.2) else old
  isQuiet item old := if f.signature.Names item.1 then old = none else f.signature.kwarg.isSome

def defaulting : Pass (Table Ty × List String) ParamInfo where
  table := Prod.fst
  isSilent state := state.2 = []
  key := ParamInfo.name
  value p old := some (old.getD (p.default.getD .any))
  isQuiet p old := p.default = none → old.isSome

def ascribing (a : Arena) : Pass (Table Ty × List Finding) ParamInfo where
  table := Prod.fst
  isSilent state := state.2 = []
  key := ParamInfo.name
  value p old := old.map (a.held p)
  isQuiet p old := ∀ value ∈ old, a.Admits p value

theorem placing_leads (table : Table Ty) (item : String × Ty) :
    placing.Leads [item] table (table.insert item.1 item.2) :=
  Pass.leads_insert rfl rfl (iff_of_true trivial ⟨trivial, trivial⟩)

theorem naming_leads (probability : Float) (bound : Bound) (item : String × Ty) :
    f.naming.Leads [item] bound (f.bindKeyword probability bound item) := by
  unfold bindKeyword
  simp only
  split
  · rename_i hmem
    rw [Signature.any_named_iff] at hmem
    split
    · rename_i hbound
      obtain ⟨value, hvalue⟩ := Option.isSome_iff_exists.1 hbound
      refine Pass.leads_of_table_eq rfl ?_ ?_ <;> simp [naming, hmem, hvalue]
    · rename_i hfree
      have hnone := Option.not_isSome_iff_eq_none.1 hfree
      refine Pass.leads_insert rfl ?_ ?_ <;> simp [naming, hmem, hnone]
  · rename_i hmem
    rw [Signature.any_named_iff] at hmem
    split
    · rename_i hkwarg
      refine Pass.leads_of_table_eq rfl ?_ ?_ <;> simp [naming, hmem, hkwarg]
    · rename_i hkwarg
      refine Pass.leads_of_table_eq rfl ?_ ?_ <;> simp [naming, hmem, hkwarg]

theorem defaulting_leads (state : Table Ty × List String) (p : ParamInfo) :
    defaulting.Leads [p] state (bindDefault state p) := by
  unfold bindDefault
  split
  · rename_i hbound
    obtain ⟨value, hvalue⟩ := Option.isSome_iff_exists.1 hbound
    refine Pass.leads_of_table_eq rfl ?_ ?_ <;> simp [defaulting, hvalue]
  · rename_i hfree
    have hnone := Option.not_isSome_iff_eq_none.1 hfree
    split
    · rename_i value hdefault
      refine Pass.leads_insert rfl ?_ ?_ <;> simp [defaulting, hnone, hdefault]
    · rename_i hdefault
      refine Pass.leads_insert rfl ?_ ?_ <;> simp [defaulting, hnone, hdefault]

theorem ascribing_leads (probability : Float) (state : Table Ty × List Finding) (p : ParamInfo) :
    (ascribing a).Leads [p] state (f.holdToAscription a probability state p) := by
  unfold holdToAscription
  split
  · rename_i ascribed value hascribed hvalue
    split
    · rename_i hunknown
      refine Pass.leads_of_table_eq rfl ?_ ?_ <;>
        simp [ascribing, hvalue, Arena.held, Arena.Admits, hascribed, hunknown]
    · rename_i hknown
      split
      · rename_i hopen
        have hadmits : a.Admits p value := fun _ _ _ hu hn => by simp [hu, hn] at hopen
        refine Pass.leads_insert rfl ?_ ?_
        · simp [ascribing, hvalue, Arena.held, hascribed, hknown, hopen]
        · simp [ascribing, hvalue, hadmits]
      · rename_i hopen
        rw [Bool.or_eq_true, not_or, Bool.not_eq_true, Bool.not_eq_true] at hopen
        split
        · rename_i hsub
          refine Pass.leads_of_table_eq rfl ?_ ?_ <;>
            simp [ascribing, hvalue, Arena.held, Arena.Admits, hascribed, hopen, hsub]
        · rename_i hsub
          refine Pass.leads_insert rfl ?_ ?_ <;>
            simp [ascribing, hvalue, Arena.held, Arena.Admits, hascribed, hknown, hopen, hsub]
  · rename_i hnone
    cases hvalue : state.1.get? p.name with
    | none => refine Pass.leads_of_table_eq rfl ?_ ?_ <;> simp [ascribing, hvalue]
    | some value =>
      have hbare : p.ascribed = none :=
        Option.eq_none_iff_forall_ne_some.2 fun ascribed hascribed => hnone ascribed value hascribed hvalue
      refine Pass.leads_of_table_eq rfl ?_ ?_ <;> simp [ascribing, hvalue, Arena.held, Arena.Admits, hbare]

end FunctionInfo

namespace Signature

variable {s : Signature}

theorem all_perm (s : Signature) : s.all.Perm (s.named ++ (s.vararg.toList ++ s.kwarg.toList)) := by
  simp only [all, named, List.append_assoc]
  exact (List.perm_append_comm_assoc ..).append_left _

structure IsDistinct (s : Signature) : Prop where
  named : (s.named.map (·.name)).Nodup
  collectors : ((s.vararg.toList ++ s.kwarg.toList).map (·.name)).Nodup
  apart : ∀ p ∈ s.vararg.toList ++ s.kwarg.toList, ¬s.Names p.name

theorem isDistinct_of_nodup (h : (s.all.map (·.name)).Nodup) : s.IsDistinct := by
  have hperm := (s.all_perm.map (·.name)).nodup_iff.1 h
  rw [List.map_append] at hperm
  obtain ⟨hnamed, hcollectors, hapart⟩ := List.nodup_append.1 hperm
  exact ⟨hnamed, hcollectors, fun p hp hname => hapart _ hname _ (List.mem_map_of_mem hp) rfl⟩

theorem mem_all_names_iff {name : String} : name ∈ s.all.map (·.name) ↔
    s.Names name ∨ name ∈ (s.vararg.toList ++ s.kwarg.toList).map (·.name) := by
  rw [(s.all_perm.map (·.name)).mem_iff, List.map_append, List.mem_append]
  rfl

theorem map_fst_placed (s : Signature) (values : List Ty) :
    (s.placed values).map (·.1) = (s.args.map (·.name)).take values.length := by
  unfold placed
  generalize s.args.map (·.name) = names
  induction names generalizing values with
  | nil => simp
  | cons name names ih => cases values <;> simp [ih]

theorem IsDistinct.placed (h : s.IsDistinct) (values : List Ty) : ((s.placed values).map (·.1)).Nodup := by
  have hnamed := h.named
  rw [Signature.named, List.map_append] at hnamed
  rw [map_fst_placed]
  exact (List.nodup_append.1 hnamed).1.take

theorem names_of_mem_placed {values : List Ty} {name : String} (h : name ∈ (s.placed values).map (·.1)) :
    s.Names name := by
  rw [map_fst_placed] at h
  rw [Names, named, List.map_append]
  exact List.mem_append_left _ (List.mem_of_mem_take h)

end Signature

namespace FunctionInfo

variable {f : FunctionInfo}

theorem lookup_eq_none_iff {items : List (String × Ty)} {name : String} :
    items.lookup name = none ↔ name ∉ items.map (·.1) :=
  Table.get?_eq_none_iff (t := ⟨items⟩)

theorem placing_get? {values : List Ty} (h : f.signature.IsDistinct) (name : String) :
    (f.bindPositional values).get? name = (f.signature.placed values).lookup name := by
  have hpass := Pass.leads_foldl placing_leads (h.placed values) Table.empty
  change (List.foldl _ Table.empty (f.signature.placed values)).get? name = _
  cases hname : (f.signature.placed values).lookup name with
  | none => exact hpass.other name (lookup_eq_none_iff.1 hname)
  | some value => exact hpass.own (name, value) (mem_of_lookup hname)

variable {values : List Ty} {keywords : List (String × Ty)}

theorem naming_spec (probability : Float) (values : List Ty) (h : f.signature.IsDistinct)
    (hkeywords : (keywords.map (·.1)).Nodup) :
    let bound := keywords.foldl (f.bindKeyword probability) { table := f.bindPositional values }
    (∀ name, bound.table.get? name =
      if f.signature.Names name then f.signature.given? values keywords name else none) ∧
    bound.table.keys.Nodup ∧
    (bound.findings = [] ↔ ∀ name ∈ keywords.map (·.1),
      if f.signature.Names name then name ∉ (f.signature.placed values).map (·.1)
      else f.signature.kwarg.isSome) := by
  have hplaced := Pass.leads_foldl placing_leads (h.placed values) Table.empty
  have hpass := Pass.leads_foldl (naming_leads (f := f) probability) hkeywords
    { table := f.bindPositional values }
  refine ⟨fun name => ?_, hpass.nodup (hplaced.nodup List.nodup_nil), ?_⟩
  · have hfree (hname : ¬f.signature.Names name) : (f.signature.placed values).lookup name = none :=
      lookup_eq_none_iff.2 (mt Signature.names_of_mem_placed hname)
    cases hkeyword : keywords.lookup name with
    | none =>
      refine (hpass.other name (lookup_eq_none_iff.1 hkeyword)).trans ((placing_get? h name).trans ?_)
      split
      · rw [Signature.given?, hkeyword, Option.or_none]
      · rename_i hname
        exact hfree hname
    | some value =>
      refine (hpass.own (name, value) (mem_of_lookup hkeyword)).trans ?_
      change (if f.signature.Names name then ((f.bindPositional values).get? name).or (some value)
        else (f.bindPositional values).get? name) = _
      rw [placing_get? h, Signature.given?, hkeyword]
      split
      · rfl
      · rename_i hname
        exact hfree hname
  · refine hpass.silent.trans ?_
    rw [List.forall_mem_map]
    refine (and_iff_right rfl).trans (forall₂_congr fun item _ => ?_)
    change (if f.signature.Names item.1 then (f.bindPositional values).get? item.1 = none
      else f.signature.kwarg.isSome) ↔ _
    rw [placing_get? h, lookup_eq_none_iff]

theorem defaulting_spec (h : f.signature.IsDistinct) {bound : Table Ty}
    (hbound : ∀ name, bound.get? name =
      if f.signature.Names name then f.signature.given? values keywords name else none) :
    let filled := f.signature.named.foldl bindDefault (bound, [])
    (∀ p ∈ f.signature.named, filled.1.get? p.name = some (f.signature.argument values keywords p)) ∧
    (∀ name, ¬f.signature.Names name → filled.1.get? name = none) ∧
    (bound.keys.Nodup → filled.1.keys.Nodup) ∧
    (filled.2 = [] ↔ ∀ p ∈ f.signature.named, p.default = none →
      (f.signature.given? values keywords p.name).isSome) := by
  have hpass := Pass.leads_foldl defaulting_leads h.named (bound, [])
  have hgiven : ∀ p ∈ f.signature.named, bound.get? p.name = f.signature.given? values keywords p.name :=
    fun p hp => (hbound p.name).trans (if_pos (List.mem_map_of_mem hp))
  refine ⟨fun p hp => ?_, fun name hname => ?_, hpass.nodup, ?_⟩
  · exact (hpass.own p hp).trans (congrArg (fun old => some (Option.getD old _)) (hgiven p hp))
  · exact (hpass.other name hname).trans ((hbound name).trans (if_neg hname))
  · refine hpass.silent.trans ((and_iff_right rfl).trans (forall₂_congr fun p hp => ?_))
    rw [← hgiven p hp]
    rfl

theorem ascribing_spec (a : Arena) (probability : Float) (h : f.signature.IsDistinct) {full : Table Ty}
    (findings : List Finding) (hfull : ∀ p ∈ f.signature.named,
      full.get? p.name = some (f.signature.argument values keywords p)) :
    let last := f.signature.named.foldl (f.holdToAscription a probability) (full, findings)
    (∀ p ∈ f.signature.named,
      last.1.get? p.name = some (a.held p (f.signature.argument values keywords p))) ∧
    (∀ name, ¬f.signature.Names name → last.1.get? name = full.get? name) ∧
    (full.keys.Nodup → last.1.keys.Nodup) ∧
    (last.2 = [] ↔ findings = [] ∧
      ∀ p ∈ f.signature.named, a.Admits p (f.signature.argument values keywords p)) := by
  have hpass := Pass.leads_foldl (ascribing_leads (f := f) (a := a) probability) h.named (full, findings)
  refine ⟨fun p hp => ?_, hpass.other, hpass.nodup, hpass.silent.trans ?_⟩
  · exact (hpass.own p hp).trans (congrArg (Option.map (a.held p)) (hfull p hp))
  · refine and_congr_right fun _ => forall₂_congr fun p hp => ?_
    change (∀ value ∈ full.get? p.name, a.Admits p value) ↔ _
    rw [hfull p hp]
    exact ⟨fun h => h _ rfl, fun h _ hvalue => Option.some.inj hvalue ▸ h⟩

section Collectors

variable (extra spare : List Ty) (bound : Table Ty)

theorem exists_get?_bindCollectors (f : FunctionInfo) :
    ∃ mapping, ∀ name, (f.bindCollectors extra spare bound).get? name =
      if f.signature.kwarg.any (name == ·.name) then some mapping
      else if f.signature.vararg.any (name == ·.name) then some (.tupleOf extra)
      else bound.get? name := by
  refine ⟨if (Ty.oneOf spare).isUnknown then .dictOf [] [] else .dictOf [.str] [.oneOf spare], fun name => ?_⟩
  unfold bindCollectors
  cases f.signature.vararg <;> cases f.signature.kwarg <;> simp [Table.get?_insert]

theorem any_name_eq_false {p? : Option ParamInfo} {name : String} (h : ∀ p ∈ p?, p.name ≠ name) :
    p?.any (name == ·.name) = false := by
  cases p? with
  | none => rfl
  | some p => exact beq_eq_false_iff_ne.2 fun heq => h p rfl heq.symm

theorem collecting_spec (h : f.signature.IsDistinct) :
    let full := f.bindCollectors extra spare bound
    (∀ name, f.signature.Names name → full.get? name = bound.get? name) ∧
    (∀ p ∈ f.signature.vararg, full.get? p.name = some (.tupleOf extra)) ∧
    (∀ name, bound.get? name = none → ((full.get? name).isSome ↔
      name ∈ (f.signature.vararg.toList ++ f.signature.kwarg.toList).map (·.name))) := by
  obtain ⟨mapping, hfull⟩ := exists_get?_bindCollectors extra spare bound f
  have hcollectors := h.collectors
  have hapart := h.apart
  refine ⟨fun name hname => ?_, fun p hp => ?_, fun name hname => ?_⟩ <;> rw [hfull]
  · have hne : ∀ p ∈ f.signature.vararg.toList ++ f.signature.kwarg.toList, p.name ≠ name :=
      fun p hp heq => hapart p hp (heq ▸ hname)
    rw [any_name_eq_false fun p hp => hne p (List.mem_append_right _ (Option.mem_toList.2 hp)),
      any_name_eq_false fun p hp => hne p (List.mem_append_left _ (Option.mem_toList.2 hp))]
    rfl
  · rw [Option.mem_def.1 hp] at hcollectors ⊢
    have hne : ∀ q ∈ f.signature.kwarg, q.name ≠ p.name := fun q hq heq =>
      (List.nodup_cons.1 hcollectors).1 (List.mem_map.2 ⟨q, Option.mem_toList.2 hq, heq⟩)
    rw [any_name_eq_false hne]
    simp
  · rw [hname]
    cases f.signature.vararg <;> cases f.signature.kwarg <;> simp
    grind

theorem nodup_keys_bindCollectors {bound : Table Ty} (h : bound.keys.Nodup) :
    (f.bindCollectors extra spare bound).keys.Nodup := by
  unfold bindCollectors
  cases f.signature.vararg <;> cases f.signature.kwarg <;> simp only [Table.nodup_keys_insert, h]

end Collectors

end FunctionInfo

theorem Container.foldl_push_tuple {elts : List Ty} (helts : ∀ t ∈ elts, t ≠ .undefined) {c : Container Ty}
    (hkind : c.kind = .tuple) :
    (elts.foldl (fun c t => c.push t) c).kind = .tuple ∧
      (elts.foldl (fun c t => c.push t) c).elts = c.elts ++ elts := by
  have hdefined : elts.filter (fun t => !t.isUndefined) = elts := by
    apply List.filter_eq_self.2
    intro t ht
    cases t with
    | undefined => exact absurd rfl (helts _ ht)
    | _ => rfl
  refine ⟨(c.kind_foldl_push elts).trans hkind, ?_⟩
  rw [elts_foldl_push_tuple hkind, hdefined]

namespace Hub

/-- A hub where nothing is pending, known or dropped. -/
structure IsFresh (h : Hub) : Prop where
  file : h.filter.ignoresFile h.cursor.file = false
  kind : ∀ kind, h.isSuppressed kind = false
  unseen : h.seen.keys = []
  pending : h.pending = []

theorem pending_report_ne_nil {h : Hub} (hpending : h.pending ≠ []) (finding : Finding) :
    (h.report finding).2.pending ≠ [] := by
  by_cases haccepts : h.Accepts h.cursor finding
  · rw [Hub.report, haccepts.reportAt]
    exact List.append_ne_nil_of_right_ne_nil _ (List.cons_ne_nil _ _)
  · rw [Hub.report, reportAt_of_not_accepts haccepts]
    exact hpending

theorem IsFresh.pending_reportAll_iff {h : Hub} (hfresh : h.IsFresh) {findings : List Finding} :
    (h.reportAll findings).pending = [] ↔ findings = [] := by
  cases findings with
  | nil => exact iff_of_true hfresh.pending rfl
  | cons finding rest =>
    have haccepts : h.Accepts h.cursor finding :=
      ⟨hfresh.file, hfresh.kind _, hfresh.unseen ▸ List.not_mem_nil⟩
    have hfirst : (h.report finding).2.pending ≠ [] := by
      rw [Hub.report, haccepts.reportAt]
      exact List.append_ne_nil_of_right_ne_nil _ (List.cons_ne_nil _ _)
    refine iff_of_false ?_ (List.cons_ne_nil _ _)
    exact List.foldlRecOn (motive := fun h : Hub => h.pending ≠ []) rest (fun h finding => (h.report finding).2)
      hfirst fun _ hpending finding _ => pending_report_ne_nil hpending finding

end Hub

namespace FunctionInfo

variable {f : FunctionInfo} {a : Arena} {values : List Ty} {keywords : List (String × Ty)}

/-- A call that there is nothing to say against: no surplus arguments without a parameter for them, names that are
those of parameters without values by position or else are collected, values for all parameters without defaults,
and values that do for their parameters. -/
structure Suits (f : FunctionInfo) (a : Arena) (values : List Ty) (keywords : List (String × Ty)) : Prop where
  count : values.length ≤ f.signature.args.length ∨ f.signature.vararg.isSome
  names : ∀ name ∈ keywords.map (·.1),
    if f.signature.Names name then name ∉ (f.signature.placed values).map (·.1) else f.signature.kwarg.isSome
  provided : ∀ p ∈ f.signature.named, p.default = none → (f.signature.given? values keywords p.name).isSome
  admitted : ∀ p ∈ f.signature.named, a.Admits p (f.signature.argument values keywords p)

theorem countFindings_eq_nil_iff {probability : Float} {missing : List String} {extra : Nat} :
    f.countFindings probability missing extra = [] ↔
      missing = [] ∧ (extra = 0 ∨ f.signature.vararg.isSome) := by
  unfold countFindings
  cases missing <;> cases extra <;> cases f.signature.vararg <;> simp

theorem argument_of_getElem? (keywords : List (String × Ty)) (h : f.signature.IsDistinct) {i : Nat}
    {p : ParamInfo} {value : Ty} (hp : f.signature.args[i]? = some p) (hvalue : values[i]? = some value) :
    f.signature.argument values keywords p = value := by
  have hmem : (p.name, value) ∈ f.signature.placed values := by
    refine List.mem_of_getElem? (i := i) (List.getElem?_zip_eq_some.2 ⟨?_, hvalue⟩)
    rw [List.getElem?_map, hp]
    rfl
  have hplaced := (Pass.leads_foldl placing_leads (h.placed values) Table.empty).own _ hmem
  have hlookup := (placing_get? h p.name).symm.trans hplaced
  rw [Signature.argument, Signature.given?, hlookup]
  rfl

end FunctionInfo

/-- A call without spread arguments that gives no name twice. -/
structure CallArgs.IsPlain (args : CallArgs) : Prop where
  isOpen : args.isOpen = false
  nodup : (args.keywords.map (·.1)).Nodup

namespace FunctionInfo

theorem exists_table_bindArguments {f : FunctionInfo} (h : f.signature.IsDistinct) (a : Arena)
    (probability : Float) (receiver : Option Ty) {args : CallArgs} (hargs : args.IsPlain) :
    let values := receiver.toList ++ args.positional
    ∃ table : Table Ty, (f.bindArguments a probability receiver args).1 = table.entries ∧ table.keys.Nodup ∧
      (∀ p ∈ f.signature.named,
        table.get? p.name = some (a.held p (f.signature.argument values args.keywords p))) ∧
      (∀ p ∈ f.signature.vararg, table.get? p.name = some (.tupleOf (values.drop f.signature.args.length))) ∧
      (∀ name, name ∈ table.keys ↔ name ∈ f.signature.all.map (·.name)) ∧
      ((f.bindArguments a probability receiver args).2 = [] ↔ f.Suits a values args.keywords) := by
  intro values
  -- One pass after another, each on the table that the one before has left.
  obtain ⟨hbound, hboundKeys, hquiet⟩ := naming_spec probability values h hargs.nodup
  unfold bindArguments
  simp only [hargs.isOpen, Bool.false_eq_true, if_false]
  generalize args.keywords.foldl (f.bindKeyword probability) { table := f.bindPositional values } = bound
    at hbound hboundKeys hquiet ⊢
  obtain ⟨hfilled, hfree, hfilledKeys, hmissing⟩ := defaulting_spec h hbound
  generalize f.signature.named.foldl bindDefault (bound.table, []) = filled
    at hfilled hfree hfilledKeys hmissing ⊢
  obtain ⟨hnamed, hvararg, hcollected⟩ := collecting_spec (values.drop f.signature.args.length) bound.spare
    filled.1 h
  have hfullKeys := nodup_keys_bindCollectors (f := f) (values.drop f.signature.args.length) bound.spare
    (hfilledKeys hboundKeys)
  generalize f.bindCollectors (values.drop f.signature.args.length) bound.spare filled.1 = full
    at hnamed hvararg hcollected hfullKeys ⊢
  obtain ⟨hown, hother, hlastKeys, hsilent⟩ := ascribing_spec a probability h
    (bound.findings ++ f.countFindings probability filled.2 (values.drop f.signature.args.length).length)
    fun p hp => (hnamed p.name (List.mem_map_of_mem hp)).trans (hfilled p hp)
  refine ⟨_, rfl, hlastKeys hfullKeys, hown, fun p hp => ?_, fun name => ?_, hsilent.trans ?_⟩
  · rw [hother p.name (h.apart p (List.mem_append_left _ (Option.mem_toList.2 hp))), hvararg p hp]
  · rw [← Table.isSome_get?_iff, Signature.mem_all_names_iff]
    by_cases hname : f.signature.Names name
    · obtain ⟨p, hp, rfl⟩ := List.mem_map.1 hname
      exact iff_of_true (hown p hp ▸ rfl) (.inl hname)
    · rw [hother name hname, hcollected name (hfree name hname), or_iff_right hname]
  · rw [List.append_eq_nil_iff, countFindings_eq_nil_iff, List.length_drop, Nat.sub_eq_zero_iff_le, hquiet, hmissing]
    exact ⟨fun ⟨⟨hnames, hprovided, hcount⟩, hadmitted⟩ => ⟨hcount, hnames, hprovided, hadmitted⟩,
      fun hsuits => ⟨⟨hsuits.names, hsuits.provided, hsuits.count⟩, hsuits.admitted⟩⟩

/-- Arguments are bound completely, and reports about them are exact. -/
theorem bindArguments_exact (f : FunctionInfo) (a : Arena) (probability : Float) (receiver : Option Ty)
    (args : CallArgs) (hub : Hub) (hnames : (f.signature.all.map (·.name)).Nodup) (hargs : args.IsPlain)
    (hvalues : ∀ t ∈ receiver.toList ++ args.positional, t ≠ .undefined) (hhub : hub.IsFresh) :
    let values := receiver.toList ++ args.positional
    let bound := f.bindArguments a probability receiver args
    (bound.1.map (·.1)).Perm (f.signature.all.map (·.name)) ∧
    (∀ p ∈ f.signature.named,
      (p.name, a.held p (f.signature.argument values args.keywords p)) ∈ bound.1) ∧
    (∀ (i : Nat) p value, f.signature.args[i]? = some p → values[i]? = some value →
      (p.name, a.held p value) ∈ bound.1) ∧
    (∀ p ∈ f.signature.vararg, ∃ tuple : Container Ty, (p.name, .container tuple) ∈ bound.1 ∧
      tuple.kind = .tuple ∧ tuple.elts = values.drop f.signature.args.length) ∧
    ((hub.reportAll bound.2).pending = [] ↔ f.Suits a values args.keywords) := by
  intro values bound
  have hdistinct := Signature.isDistinct_of_nodup hnames
  obtain ⟨table, hentries, hnodup, hnamed, hvararg, hkeys, hsilent⟩ :=
    exists_table_bindArguments hdistinct a probability receiver hargs
  have hmem {name : String} {value : Ty} (hget : table.get? name = some value) : (name, value) ∈ bound.1 :=
    hentries ▸ mem_of_lookup hget
  refine ⟨?_, fun p hp => hmem (hnamed p hp), fun i p value hp hvalue => ?_, fun p hp => ?_, ?_⟩
  · rw [hentries]
    exact (List.perm_ext_iff_of_nodup hnodup hnames).2 hkeys
  · have hparam : p ∈ f.signature.named := List.mem_append_left _ (List.mem_of_getElem? hp)
    rw [← argument_of_getElem? args.keywords hdistinct hp hvalue]
    exact hmem (hnamed p hparam)
  · have hextra : ∀ t ∈ values.drop f.signature.args.length, t ≠ .undefined := fun t ht =>
      hvalues t (List.mem_of_mem_drop ht)
    obtain ⟨hkind, helts⟩ := Container.foldl_push_tuple hextra (c := { kind := .tuple }) rfl
    exact ⟨_, hmem (hvararg p hp), hkind, helts⟩
  · exact hhub.pending_reportAll_iff.trans hsilent

theorem isFresh_start : ({ cursor := ⟨"main.py", 1⟩ } : Hub).IsFresh :=
  ⟨by decide, fun kind => by cases kind <;> rfl, rfl, rfl⟩

/-- A call with a receiver, a surplus argument and a keyword that no parameter has. -/
theorem bindArguments_exact_surplus :
    let f : FunctionInfo :=
      { name := "f", body := .lambda default, captured := ⟨0⟩
        signature :=
          { args := [{ name := "self" }, { name := "size", ascribed := some .int }], vararg := some { name := "rest" }
            kwonly := [{ name := "flag", default := some .bool }], kwarg := some { name := "more" } } }
    let args : CallArgs := { positional := [.int, .str], keywords := [("label", .str)] }
    let hub : Hub := { cursor := ⟨"main.py", 1⟩ }
    let bound := f.bindArguments {} 0.5 (some .bytes) args
    (f.signature.all.map (·.name)).Nodup ∧ args.IsPlain ∧ (∀ t ∈ [Ty.bytes, .int, .str], t ≠ .undefined) ∧
    hub.IsFresh ∧ (bound.1.map (·.1)).Perm ["self", "size", "rest", "flag", "more"] ∧
    ("size", Arena.held {} { name := "size", ascribed := some .int } .int) ∈ bound.1 ∧
    (∃ tuple : Container Ty, ("rest", .container tuple) ∈ bound.1 ∧ tuple.kind = .tuple ∧ tuple.elts = [.str]) ∧
    (hub.reportAll bound.2).pending = [] := by
  intro f args hub bound
  have hnames : (f.signature.all.map (·.name)).Nodup := by decide
  have hargs : args.IsPlain := ⟨rfl, by decide⟩
  have hvalues : ∀ t ∈ [Ty.bytes, .int, .str], t ≠ .undefined := by simp
  obtain ⟨hkeys, -, hpositional, hvararg, hreports⟩ :=
    bindArguments_exact f {} 0.5 (some .bytes) args hub hnames hargs hvalues isFresh_start
  have hsuits : f.Suits {} [.bytes, .int, .str] args.keywords := by
    have hsize : Arena.isSubtype {} .int .int = true := by
      simp only [Arena.isSubtype]
      decide
    refine ⟨.inr rfl, by decide, ?_, ?_⟩
    · simp [f, Signature.named, Signature.given?, Signature.placed, List.lookup_cons]
    · simpa [f, Signature.named, Arena.Admits, Signature.argument, Signature.given?, Signature.placed,
        List.lookup_cons] using fun _ _ => hsize
  exact ⟨hnames, hargs, hvalues, isFresh_start, hkeys, hpositional 1 _ _ rfl rfl, hvararg _ rfl,
    hreports.2 hsuits⟩

/-- No annotation holds for surplus arguments: they may fit it neither together nor one by one. -/
theorem surplus_not_held :
    let p : ParamInfo := { name := "args", ascribed := some .int }
    let f : FunctionInfo := { name := "f", body := .lambda default, captured := ⟨0⟩, signature := { vararg := some p } }
    let args : CallArgs := { positional := [.str] }
    let hub : Hub := { cursor := ⟨"main.py", 1⟩ }
    (f.signature.all.map (·.name)).Nodup ∧ args.IsPlain ∧ hub.IsFresh ∧
    f.Suits {} args.positional args.keywords ∧
    f.bindArguments {} 0.5 none args = ([("args", .tupleOf [.str])], []) ∧
    (hub.reportAll (f.bindArguments {} 0.5 none args).2).pending = [] ∧
    ¬Arena.Admits {} p (.tupleOf [.str]) ∧ ¬Arena.Admits {} p .str := by
  intro p f args hub
  refine ⟨by decide, ⟨rfl, List.nodup_nil⟩, isFresh_start, ⟨.inr rfl, nofun, nofun, nofun⟩, rfl, rfl, fun h => ?_,
    fun h => ?_⟩
  · have hsub := h .int rfl rfl rfl rfl
    simp only [Ty.tupleOf, Arena.isSubtype, Ty.isUnknown] at hsub
    exact absurd hsub (by decide)
  · have hsub := h .int rfl rfl rfl rfl
    simp only [Arena.isSubtype, Ty.isUnknown] at hsub
    exact absurd hsub (by decide)

end FunctionInfo

end Credence

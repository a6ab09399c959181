import Credence.Proofs.Acceptance
import Credence.Proofs.Contents

namespace Credence

theorem Table.get?_erase {α : Type} (t : Table α) (name : String) : (t.erase name).get? name = none := by
  refine List.lookup_eq_none_iff.2 fun entry hentry => ?_
  have hne : entry.1 ≠ name := bne_iff_ne.1 (List.mem_filter.1 hentry).2
  exact bne_iff_ne.2 hne.symm

namespace Arena

/-- The same objects, and classes with the same members of their own. -/
structure SameMembers (a b : Arena) : Prop where
  objects : b.objects = a.objects
  size : b.classes.size = a.classes.size
  name : ∀ id, (b.classAt id).name = (a.classAt id).name
  attributes : ∀ id, (b.classAt id).attributes = (a.classAt id).attributes
  hasUnknownBase : ∀ id, (b.classAt id).hasUnknownBase = (a.classAt id).hasUnknownBase

variable {a b c : Arena} {id : ObjectId} {cls : ClassId} {name : String}

theorem SameMembers.refl (a : Arena) : a.SameMembers a :=
  ⟨rfl, rfl, fun _ => rfl, fun _ => rfl, fun _ => rfl⟩

theorem SameMembers.trans (h : a.SameMembers b) (k : b.SameMembers c) : a.SameMembers c where
  objects := k.objects.trans h.objects
  size := k.size.trans h.size
  name id := (k.name id).trans (h.name id)
  attributes id := (k.attributes id).trans (h.attributes id)
  hasUnknownBase id := (k.hasUnknownBase id).trans (h.hasUnknownBase id)

theorem sameMembers_keepInherited (a : Arena) (cls : ClassId) (merged : Table Slot) :
    a.SameMembers (a.keepInherited cls merged) where
  objects := rfl
  size := Array.size_modify
  name id := getD_modify_rec (p := fun c : ClassInfo => c.name = (a.classAt id).name) rfl fun _ => rfl
  attributes id := getD_modify_rec (p := fun c : ClassInfo => c.attributes = (a.classAt id).attributes) rfl
    fun _ => rfl
  hasUnknownBase id :=
    getD_modify_rec (p := fun c : ClassInfo => c.hasUnknownBase = (a.classAt id).hasUnknownBase) rfl fun _ => rfl

theorem sameMembers_inherited (a : Arena) (cls : ClassId) : a.SameMembers (a.inherited cls).2 := by
  have hmerging : Merging a.SameMembers fun _ _ _ => True :=
    merging_of_keep fun b id merged h => h.trans (b.sameMembers_keepInherited id merged)
  exact (hmerging.inherited (.refl a) cls).2.1

theorem inherited_inherited (a : Arena) {cls : ClassId} (h : cls.val < a.classes.size) :
    ((a.inherited cls).2.classAt cls).inherited = some (a.inherited cls).1 := by
  have hsize := (a.sameMembers_inherited cls).size
  rw [inherited] at hsize ⊢
  split
  · assumption
  · rename_i hnone
    simp only [hnone, keepInherited, Array.size_modify] at hsize
    refine congrArg ClassInfo.inherited (getD_modify_self ?_)
    rwa [hsize]

/-- The object has no such attribute, and reading it is to be reported. -/
structure Lacks (a : Arena) (id : ObjectId) (name : String) : Prop where
  object : id.val < a.objects.size
  named : (a.classAt (a.classOf id)).name.isSome
  bases : (a.classAt (a.classOf id)).hasUnknownBase = false
  ordinary : isSpecialName name = false
  unresolved : (a.objectLookup id name).1 = none

def lacking (a : Arena) (id : ObjectId) (name : String) (confidence : Float) : Finding :=
  ⟨.attributeError, name, errorProbability confidence, a.className (a.classOf id) ++ " has no attribute " ++ name⟩

/-- The arena after the read of a missing attribute, which is there from then on. -/
def marked (a : Arena) (id : ObjectId) (name : String) : Arena :=
  (a.inherited (a.classOf id)).2.putOverlay id name .any

/-- The arena after that, with the attribute removed again. -/
def unmarked (a : Arena) (id : ObjectId) (name : String) : Arena :=
  ((a.marked id name).deleteAttribute (.object id) name).2

theorem classAt_unmarked (a : Arena) (id : ObjectId) (name : String) (cls : ClassId) :
    (a.unmarked id name).classAt cls = (a.inherited (a.classOf id)).2.classAt cls :=
  rfl

theorem objectMethod?_of_ordinary (h : isSpecialName name = false) : Builtin.objectMethod? name = none := by
  have hspecial : ∀ entry ∈ Builtin.objectMethods, isSpecialName entry.1 = true := by decide
  rw [Builtin.objectMethod?, Option.map_eq_none_iff]
  refine Option.eq_none_iff_forall_ne_some.2 fun shapes hshapes => ?_
  simpa [h] using hspecial _ (mem_of_lookup hshapes)

namespace Lacks

theorem class_lt (h : a.Lacks id name) : (a.classOf id).val < a.classes.size := by
  by_contra hlt
  have hnamed := h.named
  rw [classAt, getD_of_not_lt hlt] at hnamed
  cases hnamed

theorem ne_doc (h : a.Lacks id name) : name ≠ "__doc__" := by
  rintro rfl
  exact absurd h.ordinary (by decide)

theorem ne_class (h : a.Lacks id name) : name ≠ "__class__" := by
  rintro rfl
  exact absurd h.ordinary (by decide)

theorem lookup (h : a.Lacks id name) :
    (a.objectAt id).overlay.get? name = none ∧ (a.classAt (a.classOf id)).attributes.get? name = none ∧
      (a.inherited (a.classOf id)).1.get? name = none ∧
      a.objectLookup id name = (none, (a.inherited (a.classOf id)).2) := by
  have hnone := h.unresolved
  unfold objectLookup classLookup at hnone ⊢
  cases hoverlay : (a.objectAt id).overlay.get? name with
  | some t => simp [hoverlay] at hnone
  | none =>
    cases hown : (a.classAt (a.classOf id)).attributes.get? name with
    | some slot => simp [hoverlay, hown] at hnone
    | none =>
      simp only [hoverlay, hown] at hnone
      exact ⟨rfl, rfl, hnone, by simp only [hnone]⟩

theorem readAttribute (h : a.Lacks id name) (confidence : Float) :
    a.readAttribute (.object id) name confidence =
      (marked a id name).miss [a.lacking id name confidence] := by
  obtain ⟨-, -, -, hlookup⟩ := h.lookup
  have hsame := a.sameMembers_inherited (a.classOf id)
  rw [a.readAttribute_eq_readSingle rfl rfl h.ne_doc]
  simp only [readSingle, readObject, hlookup, objectMethod?_of_ordinary h.ordinary]
  simp [h.ne_class, h.ordinary, hsame.name, h.named, hsame.hasUnknownBase, h.bases, lacking, className, marked]

theorem objectAt_marked (h : a.Lacks id name) :
    (a.marked id name).objectAt id =
      { a.objectAt id with overlay := (a.objectAt id).overlay.insert name .any } := by
  have hobjects := (a.sameMembers_inherited (a.classOf id)).objects
  have hlt : id.val < (a.inherited (a.classOf id)).2.objects.size := hobjects ▸ h.object
  rw [marked, putOverlay, objectAt_modifyObject _ hlt, objectAt, hobjects]
  rfl

theorem readAttribute_marked (h : a.Lacks id name) (confidence : Float) :
    (a.marked id name).readAttribute (.object id) name confidence = (a.marked id name).hit .any := by
  have hlookup : (a.marked id name).objectLookup id name = (some (.value .any), a.marked id name) := by
    rw [objectLookup, h.objectAt_marked, Table.get?_insert, if_pos (beq_self_eq_true name)]
  rw [readAttribute_eq_readSingle _ rfl rfl h.ne_doc]
  simp [readSingle, readObject, hlookup, h.ne_class, Ty.isUndefined]

theorem objectAt_unmarked (h : a.Lacks id name) :
    (a.unmarked id name).objectAt id =
      { a.objectAt id with overlay := ((a.objectAt id).overlay.insert name .any).erase name } := by
  have hobjects := (a.sameMembers_inherited (a.classOf id)).objects
  have hlt : id.val < (a.marked id name).objects.size := by
    rw [marked, putOverlay, modifyObject, Array.size_modify, hobjects]
    exact h.object
  change ((a.marked id name).modifyObject id _).objectAt id = _
  rw [objectAt_modifyObject _ hlt, h.objectAt_marked]

theorem classOf_unmarked (h : a.Lacks id name) : (a.unmarked id name).classOf id = a.classOf id := by
  rw [classOf, h.objectAt_unmarked]
  rfl

theorem unmarked (h : a.Lacks id name) : (a.unmarked id name).Lacks id name := by
  obtain ⟨-, hown, hmerged, -⟩ := h.lookup
  have hsame := a.sameMembers_inherited (a.classOf id)
  have hclass := a.classAt_unmarked id name (a.classOf id)
  refine ⟨?_, ?_, ?_, h.ordinary, ?_⟩
  · have hsize : (a.unmarked id name).objects.size = a.objects.size := by
      simp [Arena.unmarked, deleteAttribute, marked, putOverlay, modifyObject, hsame.objects]
    exact hsize ▸ h.object
  · rw [h.classOf_unmarked, hclass, hsame.name]
    exact h.named
  · rw [h.classOf_unmarked, hclass, hsame.hasUnknownBase]
    exact h.bases
  · have hinherited : (a.unmarked id name).inherited (a.classOf id) =
        ((a.inherited (a.classOf id)).1, a.unmarked id name) := by
      rw [inherited, hclass, a.inherited_inherited h.class_lt]
    rw [objectLookup, h.objectAt_unmarked, Table.get?_erase, classLookup, h.classOf_unmarked, hclass,
      hsame.attributes, hown, hinherited]
    exact hmerged

theorem lacking_unmarked (h : a.Lacks id name) (confidence : Float) :
    (a.unmarked id name).lacking id name confidence = a.lacking id name confidence := by
  rw [lacking, h.classOf_unmarked, className, classAt_unmarked, (a.sameMembers_inherited _).name]
  rfl

end Lacks

end Arena

namespace Hub

variable {h : Hub}

theorem popSuppression_reportAll {kinds : List DiagnosticKind} {findings : List Finding}
    (hkinds : ∀ finding ∈ findings, finding.kind ∈ kinds) :
    ((h.pushSuppression kinds).reportAll findings).popSuppression = h := by
  suffices (h.pushSuppression kinds).reportAll findings = h.pushSuppression kinds by
    rw [this]
    rfl
  induction findings with
  | nil => rfl
  | cons finding rest ih =>
    obtain ⟨hfinding, hrest⟩ := List.forall_mem_cons.1 hkinds
    have hsuppressed : (h.pushSuppression kinds).isSuppressed finding.kind := by
      simp [isSuppressed, pushSuppression, hfinding]
    have hnot : ¬(h.pushSuppression kinds).Accepts (h.pushSuppression kinds).cursor finding :=
      fun haccepts => absurd hsuppressed (by simp [haccepts.kind])
    rw [reportAll, List.foldl_cons, report, reportAt_of_not_accepts hnot]
    exact ih hrest

end Hub

open Arena in
/-- A missing attribute that the hub would report is read while its reports are suppressed. The hub is then as it was,
but the next read finds the attribute and reports nothing. The report is made only if the attribute is removed from
the object between the two reads. -/
theorem suppressed_read_hides {a : Arena} {id : ObjectId} {name : String} (hlacks : a.Lacks id name) {h : Hub}
    {place : Cursor} {q : Float} (haccepts : h.Accepts place (a.lacking id name q))
    {kinds : List DiagnosticKind} (hkinds : .attributeError ∈ kinds) (p : Float) :
    let silent := a.readAttribute (.object id) name p
    let next := silent.arena.readAttribute (.object id) name q
    let removed := (silent.arena.deleteAttribute (.object id) name).2
    ((h.pushSuppression kinds).reportAll silent.findings).popSuppression = h ∧
      (a.readAttribute (.object id) name q).findings = [a.lacking id name q] ∧
      (h.reportAt place (a.lacking id name q)).1 = true ∧
      next.found = true ∧ next.findings = [] ∧
      (removed.readAttribute (.object id) name q).findings = [a.lacking id name q] := by
  intro silent next removed
  have hsilent : silent = (a.marked id name).miss [a.lacking id name p] := hlacks.readAttribute p
  have hnext : next = (a.marked id name).hit .any := by
    rw [← hlacks.readAttribute_marked q]
    exact congrArg (fun r : Reading => r.arena.readAttribute (.object id) name q) hsilent
  have hremoved : removed = a.unmarked id name := by
    change (silent.arena.deleteAttribute (.object id) name).2 = _
    rw [hsilent]
    rfl
  refine ⟨?_, ?_, ?_, ?_, ?_, ?_⟩
  · rw [hsilent]
    exact Hub.popSuppression_reportAll (by simpa [miss, lacking] using hkinds)
  · rw [hlacks.readAttribute]
    rfl
  · exact congrArg Prod.fst haccepts.reportAt
  · rw [hnext]
    rfl
  · rw [hnext]
    rfl
  · rw [hremoved, hlacks.unmarked.readAttribute, hlacks.lacking_unmarked]
    rfl

def Arena.bare : Arena where
  classes := #[{ name := some "A" }]
  objects := #[{ cls := ⟨0⟩ }]

theorem Arena.lacks_bare : Arena.bare.Lacks ⟨0⟩ "missing" where
  object := by decide
  named := rfl
  bases := rfl
  ordinary := by decide
  unresolved := by
    change (bare.inherited ⟨0⟩).1.get? "missing" = none
    rw [inherited]
    rfl

def Hub.unused : Hub where
  cursor := { file := "main.py", line := 9 }

theorem Hub.accepts_unused :
    Hub.unused.Accepts Hub.unused.cursor (Arena.bare.lacking ⟨0⟩ "missing" 0.5) :=
  ⟨by decide, by decide, by decide⟩

theorem suppressed_read_hides_bare :
    Arena.bare.Lacks ⟨0⟩ "missing" ∧
      Hub.unused.Accepts Hub.unused.cursor (Arena.bare.lacking ⟨0⟩ "missing" 0.5) ∧
      DiagnosticKind.attributeError ∈ [DiagnosticKind.attributeError] ∧
      let silent := Arena.bare.readAttribute (.object ⟨0⟩) "missing" 0.5
      let removed := (silent.arena.deleteAttribute (.object ⟨0⟩) "missing").2
      (silent.arena.readAttribute (.object ⟨0⟩) "missing" 0.5).findings = [] ∧
        (removed.readAttribute (.object ⟨0⟩) "missing" 0.5).findings =
          [Arena.bare.lacking ⟨0⟩ "missing" 0.5] := by
  have hkinds : DiagnosticKind.attributeError ∈ [DiagnosticKind.attributeError] := List.mem_cons_self
  have hhides := suppressed_read_hides Arena.lacks_bare Hub.accepts_unused hkinds 0.5
  exact ⟨Arena.lacks_bare, Hub.accepts_unused, hkinds, hhides.2.2.2.2.1, hhides.2.2.2.2.2⟩

/-- The report that a suppressed read leaves to the reads after it is lost. -/
theorem not_reported_after_suppressed_read :
    ¬∀ (a : Arena) (id : ObjectId) (name : String) (h : Hub) (kinds : List DiagnosticKind) (p q : Float),
      a.Lacks id name → h.Accepts h.cursor (a.lacking id name q) → .attributeError ∈ kinds →
      let silent := a.readAttribute (.object id) name p
      let after := ((h.pushSuppression kinds).reportAll silent.findings).popSuppression
      let next := silent.arena.readAttribute (.object id) name q
      ∃ finding ∈ next.findings, finding.kind = .attributeError ∧ (after.report finding).1 = true := by
  intro hall
  obtain ⟨finding, hfinding, -⟩ := hall .bare ⟨0⟩ "missing" .unused [.attributeError] 0.5 0.5 Arena.lacks_bare
    Hub.accepts_unused List.mem_cons_self
  rw [Arena.lacks_bare.readAttribute] at hfinding
  have hnext := congrArg Arena.Reading.findings (Arena.lacks_bare.readAttribute_marked 0.5)
  exact absurd (hnext ▸ hfinding) List.not_mem_nil

end Credence

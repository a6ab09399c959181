import Credence.Proofs.Rooted

namespace Credence

namespace Scopes

variable {s t : Scopes}

/-- The scopes that are named are there, and every way outwards ends. -/
structure Formed (s : Scopes) : Prop where
  current : s.current.val < s.all.size
  saved : ∀ id ∈ s.saved, id.val < s.all.size
  parents : ∀ id, ∀ p ∈ (s.scopeAt id).parent, p.val < s.all.size
  rooted : ∀ id, s.Rooted id

namespace Formed

theorem of_steady (h : s.Formed) (hs : s.Steady t) : t.Formed where
  current := by
    rw [hs.current, hs.size]
    exact h.current
  saved := by
    rw [hs.saved, hs.size]
    exact h.saved
  parents id := by
    rw [hs.parents id, hs.size]
    exact h.parents id
  rooted id := (h.rooted id).of_steady hs

theorem goInto (h : s.Formed) {id : ScopeId} (hid : id.val < s.all.size) {saved : List ScopeId}
    (hsaved : ∀ id ∈ saved, id.val < s.all.size) : ({ s with current := id, saved } : Scopes).Formed where
  current := hid
  saved := hsaved
  parents := h.parents
  rooted id := (h.rooted id).of_all rfl

theorem leaveFor (h : s.Formed) {id : ScopeId} (hid : id.val < s.all.size) :
    ({ s with current := id, saved := s.current :: s.saved } : Scopes).Formed :=
  h.goInto hid (List.forall_mem_cons.2 ⟨h.current, h.saved⟩)

theorem touch (h : s.Formed) : s.touch.Formed :=
  h.of_steady (steady_touch s)

theorem alloc (h : s.Formed) {scope : Scope} (hscope : ∀ p ∈ scope.parent, p.val < s.all.size) :
    (s.alloc scope).2.Formed := by
  have hsize : s.all.size < (s.alloc scope).2.all.size := by simp [Scopes.alloc]
  exact
    { current := Nat.lt_trans h.current hsize
      saved := fun id hid => Nat.lt_trans (h.saved id hid) hsize
      parents := fun id => getD_push_rec
        (p := fun found : Scope => ∀ p ∈ found.parent, p.val < (s.alloc scope).2.all.size)
        (fun _ p hp => Nat.lt_trans (h.parents id p hp) hsize)
        fun _ p hp => Nat.lt_trans (hscope p hp) hsize
      rooted := rooted_alloc h.rooted h.parents hscope }

theorem enter (h : s.Formed) (name : String) : (s.enter name).2.Formed := by
  have hall : (s.alloc { name, parent := some s.current }).2.Formed :=
    h.alloc fun p hp => Option.mem_some.1 hp ▸ h.current
  exact (hall.goInto (by simp [Scopes.alloc]) hall.saved).touch

theorem enterFunction (h : s.Formed) (name : String) (captured : ScopeId) (params : List (String × Ty)) :
    (s.enterFunction name captured params).2.Formed := by
  refine Formed.touch (Formed.leaveFor (h.alloc ?_) (by simp [Scopes.alloc]))
  exact h.parents captured

theorem exit (h : s.Formed) : s.exit.Formed := by
  unfold Scopes.exit
  split
  · rename_i parent hparent
    exact (h.goInto (h.parents s.current parent hparent) h.saved).touch
  · exact h

theorem exitFunction (h : s.Formed) : s.exitFunction.Formed := by
  have hsaved := h.saved
  unfold Scopes.exitFunction
  split
  · rename_i previous saved hs
    rw [hs] at hsaved
    obtain ⟨hprevious, hrest⟩ := List.forall_mem_cons.1 hsaved
    exact (h.goInto hprevious hrest).touch
  · exact h

theorem exitBranch (h : s.Formed) (a : Arena) : (s.exitBranch a).Formed := by
  unfold Scopes.exitBranch
  split
  · exact h
  · rename_i parent hparent
    have houtside := h.goInto (h.parents s.current parent hparent) h.saved
    exact (houtside.of_steady (steady_mergeBindings a _ _)).touch

theorem change (h : s.Formed) {id : ScopeId} {f : Scope → Scope}
    (hparent : ∀ p ∈ (f (s.scopeAt id)).parent, p.val < s.all.size)
    (hrooted : ∀ other, (s.modifyScope id f).Rooted other) : (s.modifyScope id f).Formed := by
  have hsize : (s.modifyScope id f).all.size = s.all.size := Array.size_modify
  refine ⟨hsize ▸ h.current, hsize ▸ h.saved, fun other => ?_, hrooted⟩
  rw [hsize, scopeAt_modifyScope]
  split
  · rename_i hother
    obtain ⟨i⟩ := id
    obtain ⟨j⟩ := other
    obtain rfl : i = j := hother.1
    exact hparent
  · exact h.parents other

end Formed

theorem Sound.formed {has : Entry → Prop} (h : s.Sound has) (hrange : ∀ id, has (.scope id) → id.val < s.all.size) :
    s.Formed where
  current := hrange _ h.current
  saved id hid := hrange id (h.saved id hid)
  parents id p hp := hrange p ((h.scope id).parent p hp)
  rooted := h.rooted

end Scopes

namespace Adoption

variable {w : World} {P : Entry → Prop} {a b : Adoption}

theorem Extends.size_le (h : Extends w P a b) : a.scopes.all.size ≤ b.scopes.all.size := by
  by_contra hlt
  have hlast : a.target.Contains (.scope ⟨b.scopes.all.size⟩) := Nat.lt_of_not_le hlt
  exact Nat.lt_irrefl _ (h.keeps hlast).1

section Extends

variable (h : Extends w P a b) (ha : a.Valid) (hformed : a.scopes.Formed)
include h ha hformed

omit h in
theorem Valid.contains_scope {id copy : ScopeId} (hp : a.Pairs (.scope id) (.scope copy)) :
    copy.val < a.scopes.all.size := by
  by_cases hglobal : copy = Scopes.global
  · subst hglobal
    exact Nat.lt_of_le_of_lt (Nat.zero_le _) hformed.current
  · exact ha (f := .scope copy) hp fun heq => hglobal (Entry.scope.inj heq)

theorem Extends.contains_scope {id copy : ScopeId} (hp : b.Pairs (.scope id) (.scope copy)) :
    copy.val < b.scopes.all.size := by
  by_cases hold : a.Pairs (.scope id) (.scope copy)
  · exact Nat.lt_of_lt_of_le (ha.contains_scope hformed hold) h.size_le
  · exact (h.fresh hp hold).2

omit ha in
theorem Extends.rooted_of_old {id : ScopeId} (hold : id.val < a.scopes.all.size) : b.scopes.Rooted id := by
  refine (hformed.rooted id).of_parents (P := (·.val < a.scopes.all.size)) hold ?_ ?_
  · exact fun id hid => congrArg Scope.parent (h.keeps (f := .scope id) hid).2
  · exact fun id parent _ hparent => hformed.parents id parent hparent

theorem Extends.rooted_of_copy {id copy : ScopeId} (hid : w.scopes.Rooted id)
    (hp : b.Pairs (.scope id) (.scope copy)) : b.scopes.Rooted copy := by
  induction hid generalizing copy with
  | @root id hroot =>
    by_cases hold : a.Pairs (.scope id) (.scope copy)
    · exact h.rooted_of_old hformed (ha.contains_scope hformed hold)
    have hrel : Option.Rel _ (w.scopes.scopeAt id).parent (b.scopes.scopeAt copy).parent :=
      (h.copies hp hold).parent
    rw [hroot] at hrel
    cases hparent : (b.scopes.scopeAt copy).parent with
    | none => exact .root hparent
    | some parent => rw [hparent] at hrel; cases hrel
  | @child id parent hparent _ ih =>
    by_cases hold : a.Pairs (.scope id) (.scope copy)
    · exact h.rooted_of_old hformed (ha.contains_scope hformed hold)
    have hrel : Option.Rel (fun p copy => b.Pairs (.scope p) (.scope copy))
        (w.scopes.scopeAt id).parent (b.scopes.scopeAt copy).parent := (h.copies hp hold).parent
    rw [hparent] at hrel
    obtain ⟨outer, houter, hpair⟩ := exists_of_optionRel hrel
    exact .child houter (ih hpair)

theorem Extends.formed (hw : ∀ id, w.scopes.Rooted id) : b.scopes.Formed := by
  have hscope (id : ScopeId) :
      (∀ p ∈ (b.scopes.scopeAt id).parent, p.val < b.scopes.all.size) ∧ b.scopes.Rooted id := by
    by_cases hold : id.val < a.scopes.all.size
    · have hsame : b.scopes.scopeAt id = a.scopes.scopeAt id := (h.keeps (f := .scope id) hold).2
      refine ⟨fun p hp => ?_, h.rooted_of_old hformed hold⟩
      rw [hsame] at hp
      exact Nat.lt_of_lt_of_le (hformed.parents id p hp) h.size_le
    by_cases hin : id.val < b.scopes.all.size
    · obtain ⟨e, he⟩ := h.onto (f := .scope id) hin hold
      cases e with
      | scope original =>
        have hnew : ¬a.Pairs (.scope original) (.scope id) := fun hp =>
          hold (ha.contains_scope hformed hp)
        have hcopied : Option.Rel (fun p copy => b.Pairs (.scope p) (.scope copy))
            (w.scopes.scopeAt original).parent (b.scopes.scopeAt id).parent := (h.copies he hnew).parent
        refine ⟨fun p hp => ?_, h.rooted_of_copy ha hformed (hw original) he⟩
        obtain ⟨_, -, hpair⟩ := exists_of_mem_optionRel hcopied hp
        exact h.contains_scope ha hformed hpair
      | _ => exact he.elim
    · have hnone : (b.scopes.scopeAt id).parent = none := congrArg Scope.parent (getD_of_not_lt hin)
      refine ⟨fun p hp => ?_, .root hnone⟩
      rw [hnone] at hp
      exact absurd hp (Option.not_mem_none _)
  refine ⟨?_, fun id hid => ?_, fun id => (hscope id).1, fun id => (hscope id).2⟩
  · rw [h.current]
    exact Nat.lt_of_lt_of_le hformed.current h.size_le
  · rw [h.saved] at hid
    exact Nat.lt_of_lt_of_le (hformed.saved id hid) h.size_le

end Extends

end Adoption

end Credence

import Mathlib.Logic.ExistsUnique
import Credence.Proofs.Copier

namespace Credence

namespace Adoption

variable {w : World} {P : Entry → Prop} {arena : Arena} {scopes : Scopes} {b : Adoption}

theorem not_leads_global {e : Entry} (h : w.Leads (.scope Scopes.global) e) : False := by
  cases h with
  | parent hne _ => exact hne rfl
  | stored hs _ =>
    cases hs with
    | binding hne _ => exact hne rfl

theorem Extends.exists_of_reaches (h : Extends w P { arena, scopes } b) {e g : Entry}
    (hr : w.Reaches e g) (he : ∃ f, b.Pairs e f) : ∃ f, b.Pairs g f := by
  induction hr with
  | refl => exact he
  | @tail c d _ hl ih =>
    obtain ⟨f, hf⟩ := ih
    by_cases hstart : Pairs { arena, scopes } c f
    · rw [(eq_global_of_pairs_start hstart).1] at hl
      exact (not_leads_global hl).elim
    · exact (h.copies hf hstart).exists_of_leads hl

theorem Extends.exists_of_spans (h : Extends w P { arena, scopes } b) {t u : Ty}
    (ht : t.Copied b.Pairs u) {e : Entry} (he : w.Spans t.Mentions e) : ∃ f, b.Pairs e f := by
  obtain ⟨root, hroot, hr⟩ := he
  exact h.exists_of_reaches hr (ht.exists_of_mentions hroot)

theorem Extends.exists_older_of_inherits (h : Extends w P { arena, scopes } b) {id base : ClassId}
    (hi : w.Inherits id base) {copy : ClassId} (hcopy : b.Pairs (.cls id) (.cls copy)) :
    ∃ older : ClassId, b.Pairs (.cls base) (.cls older) ∧ older.val < copy.val := by
  have direct {id base copy : ClassId} (hbase : base ∈ (w.arena.classAt id).bases)
      (hcopy : b.Pairs (.cls id) (.cls copy)) :
      ∃ older : ClassId, b.Pairs (.cls base) (.cls older) ∧ older.val < copy.val := by
    have hm := h.copies hcopy (not_pairs_start nofun)
    obtain ⟨older, hmem, hold⟩ := exists_of_forall₂ hm.1.bases hbase
    exact ⟨older, hold, hm.2 older hmem⟩
  induction hi with
  | single hbase => exact direct hbase hcopy
  | tail _ hbase ih =>
    obtain ⟨middle, hmiddle, hlt⟩ := ih
    obtain ⟨older, hold, hlt'⟩ := direct hbase hmiddle
    exact ⟨older, hold, Nat.lt_trans hlt' hlt⟩

theorem Extends.not_inherits_self (h : Extends w P { arena, scopes } b) {id : ClassId}
    (hcopy : ∃ f, b.Pairs (.cls id) f) : ¬w.Inherits id id := by
  intro hi
  obtain ⟨f, hf⟩ := hcopy
  cases f with
  | cls copy =>
    obtain ⟨older, hold, hlt⟩ := h.exists_older_of_inherits hi hf
    have hsame := h.single (e := .cls id) not_false (single_start _) hf hold
    cases hsame
    exact Nat.lt_irrefl _ hlt
  | _ => exact hf

theorem Extends.single_of_apart (h : Extends w P { arena, scopes } b) (hw : w.Apart P) (e : Entry) :
    b.Single e := by
  by_cases he : e.IsObject
  · exact h.singleObject hw he (single_start e)
  · exact h.single he (single_start e)

/-- An adoption of a type that shares its copies exactly as the originals were shared. The signature
of a builtin callable is taken over as it is, so the entries that it names would have to stand for
themselves. -/
structure Shares (w : World) (t u : Ty) (a b : Adoption) : Prop where
  type : t.Copied b.Pairs u
  once : ∀ {e : Entry}, w.Spans t.Mentions e → ∃! f, b.Pairs e f
  distinct : ∀ {e g f : Entry}, b.Pairs e f → b.Pairs g f → e = g
  copies : ∀ {e f : Entry}, b.Pairs e f → e ≠ .scope Scopes.global →
    w.Matches b.target b.Pairs e f ∧ ¬a.target.Contains f ∧ b.target.Contains f
  onto : ∀ {f : Entry}, b.target.Contains f → ¬a.target.Contains f →
    ∃ e, w.Spans t.Mentions e ∧ b.Pairs e f
  fixed : ∀ {e : Entry}, t.Fixes e → b.Pairs e e
  fixedIn : ∀ {g e : Entry} {s : Ty}, w.Spans t.Mentions g → w.Stores g s → s.Fixes e → b.Pairs e e

end Adoption

/-- Adopting a type into any world with an outermost scope shares the copies exactly. -/
def World.SharesExactly (w : World) (t : Ty) : Prop :=
  ∀ (arena : Arena) (scopes : Scopes), 0 < scopes.all.size →
    ∃ u b, (Adoption.adopt (Adoption.copier w) t).run { arena, scopes } = .ok (u, b) ∧
      Adoption.Shares w t u { arena, scopes } b

/-- Entries that can be shared exactly. -/
structure World.Sharable (w : World) (P : Entry → Prop) : Prop where
  grounded : w.Grounded P
  apart : w.Apart P
  plain : ∀ {e f : Entry} {t : Ty}, P e → w.Stores e t → ¬t.Fixes f

namespace World

open Adoption

variable {w : World} {t : Ty}

theorem Sharable.mono {P Q : Entry → Prop} (h : w.Sharable P) (hQP : ∀ {e : Entry}, Q e → P e) :
    w.Sharable Q where
  grounded id hid := h.grounded id (hQP hid)
  apart id hid := h.apart id (hQP hid)
  plain he := h.plain (hQP he)

theorem SharesExactly.of_sharable (h : w.Sharable (w.Spans t.Mentions))
    (ht : ∀ e, ¬t.Fixes e) : w.SharesExactly t := by
  intro arena scopes hsize
  have hgives := copying_adopt (a := { arena, scopes }) (w.closed_spans t.Mentions)
    (fun e he => w.spans_of_root he) (valid_start arena scopes)
  unfold Gives at hgives
  cases hrun : (Adoption.adopt (Adoption.copier w) t).run { arena, scopes } with
  | error e =>
    rw [hrun] at hgives
    exact absurd h.grounded hgives.2
  | ok result =>
    obtain ⟨u, b⟩ := result
    rw [hrun] at hgives
    obtain ⟨hx, htype⟩ := hgives
    refine ⟨u, b, rfl, ?_⟩
    refine
      { type := htype, once := ?_, distinct := hx.eq_of_pairs hsize _ _ _, copies := ?_, onto := ?_
        fixed := fun hf => (ht _ hf).elim, fixedIn := fun hg hs hf => (h.plain hg hs hf).elim }
    · intro e he
      obtain ⟨f, hf⟩ := hx.exists_of_spans htype he
      exact ⟨f, hf, fun g hg => hx.single_of_apart h.apart e hg hf⟩
    · intro e f hp hne
      exact ⟨hx.copies hp (not_pairs_start hne), hx.fresh hp (not_pairs_start hne)⟩
    · intro f hf hold
      obtain ⟨e, he⟩ := hx.onto hf hold
      refine ⟨e, hx.inside he fun hs => hold ?_, he⟩
      rw [(eq_global_of_pairs_start hs).2]
      exact hsize

theorem not_mentions_scope {id : ScopeId} (h : t.Mentions (.scope id)) : False := by
  generalize he : Entry.scope id = e at h
  induction h with
  | elt _ _ ih | value _ _ ih | alternative _ _ ih => exact ih he
  | _ => cases he

theorem not_fixes_scope {id : ScopeId} (h : t.Fixes (.scope id)) : False := by
  generalize he : Entry.scope id = e at h
  induction h with
  | param _ h | ret h => exact not_mentions_scope (he ▸ h)
  | inParam _ _ ih | inRet _ ih | elt _ _ ih | value _ _ ih | alternative _ _ ih => exact ih he

theorem exists_contains (e : Entry) (he : ∀ id, e ≠ .scope id) :
    ∃ arena : Arena, World.Contains ⟨arena, {}⟩ e := by
  cases e with
  | cls id => exact ⟨{ classes := .replicate (id.val + 1) default }, by simp [Contains]⟩
  | object id => exact ⟨{ objects := .replicate (id.val + 1) default }, by simp [Contains]⟩
  | function id => exact ⟨{ functions := .replicate (id.val + 1) default }, by simp [Contains]⟩
  | module id => exact ⟨{ modules := .replicate (id.val + 1) default }, by simp [Contains]⟩
  | scope id => exact absurd rfl (he id)

theorem SharesExactly.not_fixed (h : w.SharesExactly t) {e : Entry} (he : ∀ id, e ≠ .scope id)
    (hfixed : ∀ {u : Ty} {a b : Adoption}, Shares w t u a b → b.Pairs e e) : False := by
  obtain ⟨arena, hin⟩ := exists_contains e he
  obtain ⟨u, b, -, hs⟩ := h arena {} (by decide)
  exact (hs.copies (hfixed hs) (he _)).2.1 hin

theorem SharesExactly.not_fixes (h : w.SharesExactly t) (e : Entry) : ¬t.Fixes e := by
  intro hf
  refine h.not_fixed (e := e) (fun _ he => not_fixes_scope (he ▸ hf)) fun hshares => ?_
  exact hshares.fixed hf

theorem SharesExactly.plain (h : w.SharesExactly t) {g e : Entry} {s : Ty}
    (hg : w.Spans t.Mentions g) (hs : w.Stores g s) : ¬s.Fixes e := by
  intro hf
  refine h.not_fixed (e := e) (fun _ he => not_fixes_scope (he ▸ hf)) fun hshares => ?_
  exact hshares.fixedIn hg hs hf

theorem SharesExactly.exists_extends (h : w.SharesExactly t) :
    ∃ u b, (Adoption.adopt (Adoption.copier w) t).run { arena := {}, scopes := {} } = .ok (u, b) ∧
      Extends w (w.Spans t.Mentions) { arena := {}, scopes := {} } b ∧
      Shares w t u { arena := {}, scopes := {} } b := by
  obtain ⟨u, b, hrun, hs⟩ := h {} {} (by decide)
  have hgives := copying_adopt (a := { arena := {}, scopes := {} }) (w.closed_spans t.Mentions)
    (fun e he => w.spans_of_root he) (valid_start _ _)
  unfold Gives at hgives
  rw [hrun] at hgives
  exact ⟨u, b, hrun, hgives.1, hs⟩

theorem SharesExactly.grounded (h : w.SharesExactly t) : w.Grounded (w.Spans t.Mentions) := by
  intro id hid
  obtain ⟨u, b, -, hx, hs⟩ := h.exists_extends
  exact hx.not_inherits_self (hx.exists_of_spans hs.type hid)

/-- An object that its class leads to is copied with the class first, and then once more. -/
theorem SharesExactly.not_reaches (w : World) (id : ObjectId)
    (hr : w.Reaches (.cls (w.arena.classOf id)) (.object id)) : ¬w.SharesExactly (.object id) := by
  intro h
  obtain ⟨u, d, hrun, -, hs⟩ := h.exists_extends
  obtain ⟨m, hm⟩ : ∃ m, (w.entryCount + 4) * (w.entryCount + 4) = m + 1 := ⟨_, rfl⟩
  have hself : w.Reaches (.object id) (.object id) := .refl
  have hobject := (spec_copierUpTo w m).copyObject_of_new (w.closed_reaches (.object id)) hself
    rfl (valid_start {} {})
  have hgives : Gives False (Adoption.adopt (Adoption.copier w) (.object id))
      { arena := {}, scopes := {} } fun _ d => ∃ copy, Nonempty
        (OfClass w (w.Reaches (.object id)) id { arena := {}, scopes := {} } copy d) := by
    rw [Adoption.adopt.eq_def, Adoption.copier, hm]
    exact Gives.bind (hobject.of_live False.elim) fun copy d hd => Gives.pure ⟨copy, hd⟩
  unfold Gives at hgives
  rw [hrun] at hgives
  obtain ⟨copy, ⟨made⟩⟩ := hgives
  obtain ⟨f, hf⟩ := made.below.exists_of_reaches hr ⟨_, made.classCopied⟩
  obtain ⟨g, -, hunique⟩ := hs.once (w.spans_of_root (.object id))
  have hsame : f = .object copy :=
    (hunique f (made.later.pairs hf)).trans (hunique _ made.copied).symm
  subst hsame
  exact made.fresh (made.below.valid (valid_start {} {}) hf nofun)

def typeOf : Entry → Ty
  | .cls id => .classObj id
  | .object id => .object id
  | .function id => .function id
  | .module id => .module id
  | .scope _ => .any

theorem eq_of_mentions_typeOf {e f : Entry} (h : (typeOf e).Mentions f) : f = e := by
  cases e <;> cases h <;> rfl

theorem mentions_typeOf {e : Entry} (h : t.Mentions e) : (typeOf e).Mentions e := by
  cases e with
  | cls id => exact .classObj id
  | object id => exact .object id
  | function id => exact .function id
  | module id => exact .module id
  | scope id => exact (not_mentions_scope h).elim

theorem not_fixes_typeOf (e f : Entry) : ¬(typeOf e).Fixes f := by
  intro h
  cases e <;> cases h

/-- All types without builtin signatures over some entries are shared exactly if and only if these
entries can be. -/
theorem shares_exactly_iff_sharable (w : World) (types : Ty → Prop) :
    (∀ t : Ty, (∀ e, t.Mentions e → w.Spans (fun root => ∃ s, types s ∧ s.Mentions root) e) →
      (w.SharesExactly t ↔ ∀ e, ¬t.Fixes e)) ↔
    w.Sharable (w.Spans fun root => ∃ s, types s ∧ s.Mentions root) := by
  constructor
  · intro h
    have exactly {e : Entry} (he : w.Spans (fun root => ∃ s, types s ∧ s.Mentions root) e) :
        w.SharesExactly (typeOf e) := by
      refine (h (typeOf e) fun f hf => ?_).2 (not_fixes_typeOf e)
      rw [eq_of_mentions_typeOf hf]
      exact he
    refine { grounded := ?_, apart := ?_, plain := ?_ }
    · intro id hid
      exact (exactly hid).grounded id (w.spans_of_root (.classObj id))
    · intro id hid hr
      exact SharesExactly.not_reaches w id hr (exactly hid)
    · rintro e f t ⟨root, ⟨s, hs, hroot⟩, hr⟩ hstored
      have hspans : w.Spans (fun root => ∃ s, types s ∧ s.Mentions root) root :=
        w.spans_of_root ⟨s, hs, hroot⟩
      exact (exactly hspans).plain ⟨root, mentions_typeOf hroot, hr⟩ hstored
  · intro h t ht
    refine ⟨SharesExactly.not_fixes, .of_sharable (h.mono ?_)⟩
    rintro e ⟨root, hroot, hr⟩
    exact (w.closed_spans _).of_reaches (ht root hroot) hr

/-- An object that is an attribute of its own class is copied twice. -/
theorem not_shares_exactly_attribute_of_own_class :
    ¬World.SharesExactly
      { arena :=
          { classes := #[{ name := some "C", attributes := ⟨[("me", .value (.object ⟨0⟩))]⟩ }]
            objects := #[{ cls := ⟨0⟩ }] } }
      (.object ⟨0⟩) := by
  refine SharesExactly.not_reaches _ _ (.single ?_)
  exact .stored (t := Slot.type (.value (.object ⟨0⟩))) (.slot (List.mem_singleton.2 rfl))
    (.object ⟨0⟩)

end World

end Credence

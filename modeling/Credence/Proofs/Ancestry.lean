import Mathlib.Logic.Function.Iterate
import Mathlib.Logic.Relation
import Credence.Arena.Inherit

namespace Credence.Arena

variable {a : Arena} {b c d : ClassId} {seen pending : List ClassId}

/-- A class leads to another one through bases, or is it. -/
def Derives (a : Arena) : ClassId → ClassId → Prop :=
  Relation.ReflTransGen fun c b => b ∈ (a.classAt c).bases

theorem forall_bases_of_lt {P : ClassId → ClassId → Prop}
    (h : ∀ i : Fin a.classes.size, ∀ b ∈ (a.classAt ⟨i⟩).bases, P ⟨i⟩ b) :
    ∀ c : ClassId, ∀ b ∈ (a.classAt c).bases, P c b := by
  intro c b hb
  by_cases hc : c.val < a.classes.size
  · exact h ⟨c.val, hc⟩ b hb
  · rw [bases_of_size_le (Nat.le_of_not_lt hc)] at hb
    cases hb

theorem mem_collectAncestors_of_mem (h : c ∈ pending) :
    c ∈ seen ∨ c ∈ a.collectAncestors seen pending := by
  fun_induction collectAncestors a seen pending with
  | case1 => cases h
  | case2 seen id pending hseen ih =>
    rcases List.mem_cons.1 h with rfl | h
    · exact .inl (List.contains_iff_mem.1 hseen)
    · exact ih h
  | case3 seen id pending hseen ih =>
    rcases List.mem_cons.1 h with rfl | h
    · exact .inr List.mem_cons_self
    · rcases ih (List.mem_append_right _ h) with h | h
      · rcases List.mem_cons.1 h with rfl | h
        · exact .inr List.mem_cons_self
        · exact .inl h
      · exact .inr (List.mem_cons_of_mem _ h)

theorem mem_collectAncestors_of_mem_bases (hc : c ∈ a.collectAncestors seen pending)
    (hb : b ∈ (a.classAt c).bases) : b ∈ seen ∨ b ∈ a.collectAncestors seen pending := by
  fun_induction collectAncestors a seen pending with
  | case1 => cases hc
  | case2 seen id pending hseen ih => exact ih hc
  | case3 seen id pending hseen ih =>
    have hfound : b ∈ id :: seen ∨
        b ∈ a.collectAncestors (id :: seen) ((a.classAt id).bases.reverse ++ pending) := by
      rcases List.mem_cons.1 hc with rfl | hc
      · exact mem_collectAncestors_of_mem (List.mem_append_left _ (List.mem_reverse.2 hb))
      · exact ih hc
    rcases hfound with h | h
    · rcases List.mem_cons.1 h with rfl | h
      · exact .inr List.mem_cons_self
      · exact .inl h
    · exact .inr (List.mem_cons_of_mem _ h)

theorem exists_derives_of_mem_collectAncestors (h : d ∈ a.collectAncestors seen pending) :
    ∃ c ∈ pending, a.Derives c d := by
  fun_induction collectAncestors a seen pending with
  | case1 => cases h
  | case2 seen id pending hseen ih =>
    obtain ⟨c, hc, hcd⟩ := ih h
    exact ⟨c, List.mem_cons_of_mem _ hc, hcd⟩
  | case3 seen id pending hseen ih =>
    rcases List.mem_cons.1 h with rfl | h
    · exact ⟨d, List.mem_cons_self, .refl⟩
    · obtain ⟨c, hc, hcd⟩ := ih h
      rcases List.mem_append.1 hc with hc | hc
      · exact ⟨id, List.mem_cons_self, hcd.head (List.mem_reverse.1 hc)⟩
      · exact ⟨c, List.mem_cons_of_mem _ hc, hcd⟩

theorem mem_ancestors : d ∈ a.ancestors c ↔ a.Derives c d := by
  constructor
  · intro h
    obtain ⟨c', hc', hd⟩ := exists_derives_of_mem_collectAncestors h
    exact List.mem_singleton.1 hc' ▸ hd
  · intro h
    induction h with
    | refl =>
      exact (mem_collectAncestors_of_mem (List.mem_singleton_self c)).resolve_left List.not_mem_nil
    | tail _ hb ih =>
      exact (mem_collectAncestors_of_mem_bases ih hb).resolve_left List.not_mem_nil

theorem not_mem_of_mem_collectAncestors (h : c ∈ a.collectAncestors seen pending) : c ∉ seen := by
  fun_induction collectAncestors a seen pending with
  | case1 => cases h
  | case2 seen id pending hseen ih => exact ih h
  | case3 seen id pending hseen ih =>
    rcases List.mem_cons.1 h with rfl | h
    · exact fun hmem => hseen (List.contains_iff_mem.2 hmem)
    · exact fun hmem => ih h (List.mem_cons_of_mem _ hmem)

theorem nodup_collectAncestors (a : Arena) (seen pending : List ClassId) :
    (a.collectAncestors seen pending).Nodup := by
  fun_induction collectAncestors a seen pending with
  | case1 => exact List.nodup_nil
  | case2 seen id pending hseen ih => exact ih
  | case3 seen id pending hseen ih =>
    refine List.nodup_cons.2 ⟨fun h => ?_, ih⟩
    exact not_mem_of_mem_collectAncestors h List.mem_cons_self

theorem isSubclass_iff :
    a.isSubclass c d = true ↔ ∃ e, a.Derives c e ∧ a.className e = a.className d := by
  unfold isSubclass ancestorNames
  simp only [Bool.or_eq_true, beq_iff_eq, List.contains_iff_mem, List.mem_map, mem_ancestors]
  constructor
  · rintro (rfl | h)
    · exact ⟨c, .refl, rfl⟩
    · exact h
  · exact .inr

theorem isSubclass_refl (a : Arena) (c : ClassId) : a.isSubclass c c = true :=
  isSubclass_iff.2 ⟨c, .refl, rfl⟩

/-- The bases of the classes of an arena are among its classes. -/
def BasesWithin (a : Arena) : Prop :=
  ∀ c : ClassId, ∀ b ∈ (a.classAt c).bases, b.val < a.classes.size

theorem BasesWithin.lt_size_of_derives (h : a.BasesWithin) (hc : c.val < a.classes.size)
    (hd : a.Derives c d) : d.val < a.classes.size := by
  cases hd with
  | refl => exact hc
  | tail _ hb => exact h _ _ hb

/-- A search for ancestors on its way: the classes still to be looked at, those seen before, the latest
first, and the names found so far. -/
structure Climb where
  pending : List ClassId
  seen : List ClassId := []
  names : List String := []

namespace Climb

/-- One step of the search. The class on top of the pending ones is passed over if it was seen before;
otherwise its name is found, and its bases are pending, the last one on top. -/
def step (a : Arena) (s : Climb) : Climb :=
  match s.pending with
  | [] => s
  | id :: pending =>
    if s.seen.contains id then { s with pending }
    else
      { pending := (a.classAt id).bases.reverse ++ pending
        seen := id :: s.seen
        names := s.names ++ [a.className id] }

def steps (a : Arena) (pending found : List ClassId) : Nat :=
  pending.length + (found.flatMap fun id => (a.classAt id).bases).length

theorem iterate_step (a : Arena) (seen pending : List ClassId) (names : List String) :
    (step a)^[steps a pending (a.collectAncestors seen pending)] { pending, seen, names } =
      { pending := []
        seen := (a.collectAncestors seen pending).reverse ++ seen
        names := names ++ (a.collectAncestors seen pending).map a.className } := by
  -- By induction along the search, in which each step takes one class off the pending ones.
  fun_induction collectAncestors a seen pending generalizing names with
  | case1 => simp [steps]
  | case2 seen id pending hseen ih =>
    have hstep : step a { pending := id :: pending, seen, names } = { pending, seen, names } :=
      if_pos hseen
    have hsteps (found : List ClassId) : steps a (id :: pending) found = steps a pending found + 1 := by
      simp only [steps, List.length_cons]
      omega
    rw [hsteps, Function.iterate_succ_apply, hstep, ih]
  | case3 seen id pending hseen ih =>
    have hstep : step a { pending := id :: pending, seen, names } =
        { pending := (a.classAt id).bases.reverse ++ pending
          seen := id :: seen
          names := names ++ [a.className id] } :=
      if_neg hseen
    have hsteps (found : List ClassId) : steps a (id :: pending) (id :: found) =
        steps a ((a.classAt id).bases.reverse ++ pending) found + 1 := by
      simp only [steps, List.length_cons, List.length_append, List.length_reverse, List.flatMap_cons]
      omega
    rw [hsteps, Function.iterate_succ_apply, hstep, ih]
    simp

end Climb

/-- The search for the ancestors of a class ends, whatever cycles the bases form, after a step for the
class and one for each base of a class that is found. It finds the name of each class that the class leads
to, once for each such class, and no others; so a class is a subclass of those whose name one of these
bears. -/
theorem climb_ends_at_ancestors (hbases : a.BasesWithin) (hc : c.val < a.classes.size) :
    (Climb.step a)^[1 + ((a.ancestors c).flatMap fun id => (a.classAt id).bases).length]
        { pending := [c] } =
        { pending := [], seen := (a.ancestors c).reverse, names := a.ancestorNames c } ∧
      (∀ d, d ∈ a.ancestors c ↔ a.Derives c d) ∧
      (∀ d, a.Derives c d → d.val < a.classes.size) ∧
      (a.ancestors c).Nodup ∧
      a.ancestorNames c = (a.ancestors c).map a.className ∧
      ∀ d, a.isSubclass c d = true ↔ ∃ e, a.Derives c e ∧ a.className e = a.className d := by
  have hend := Climb.iterate_step a [] [c] []
  rw [List.append_nil, List.nil_append] at hend
  refine ⟨hend, fun d => mem_ancestors, fun d => hbases.lt_size_of_derives hc, ?_, rfl, fun d => isSubclass_iff⟩
  exact nodup_collectAncestors a [] [c]

/-- Classes that are bases of each other or of themselves, a base given twice, one class without a name and
two with the same. -/
def tangle : Arena where
  classes := #[
    { name := some "A", bases := [⟨1⟩] },
    { name := some "B", bases := [⟨0⟩, ⟨2⟩, ⟨2⟩] },
    { name := none, bases := [⟨2⟩] },
    { name := some "D", bases := [⟨0⟩, ⟨1⟩] },
    { name := some "B" }]

theorem basesWithin_tangle : tangle.BasesWithin :=
  forall_bases_of_lt (by decide)

/-- The search goes round the cycles once, and the second class of a name counts though nothing leads to
it. -/
theorem climb_ends_at_ancestors_tangle :
    tangle.BasesWithin ∧ 3 < tangle.classes.size ∧
      (Climb.step tangle)^[8] { pending := [⟨3⟩] } =
        { pending := [], seen := [⟨0⟩, ⟨2⟩, ⟨1⟩, ⟨3⟩], names := ["D", "B", "<class>", "A"] } ∧
      tangle.isSubclass ⟨3⟩ ⟨4⟩ = true ∧ ¬tangle.Derives ⟨3⟩ ⟨4⟩ := by
  have hsize : 3 < tangle.classes.size := by decide
  have hfound : tangle.ancestors ⟨3⟩ = [⟨3⟩, ⟨1⟩, ⟨2⟩, ⟨0⟩] := by cbv
  obtain ⟨hend, hmem, -, -, hnames, hsubclass⟩ := climb_ends_at_ancestors basesWithin_tangle hsize
  rw [hnames, hfound] at hend
  refine ⟨basesWithin_tangle, hsize, hend, (hsubclass ⟨4⟩).2 ⟨⟨1⟩, (hmem ⟨1⟩).1 ?_, rfl⟩, fun h => ?_⟩
  · rw [hfound]
    decide
  · have hmem' := (hmem ⟨4⟩).2 h
    rw [hfound] at hmem'
    revert hmem'
    decide

/-- The classes of an arena have different names, and their bases are among them. -/
structure NamesApart (a : Arena) : Prop where
  names : ∀ c d : ClassId, c.val < a.classes.size → d.val < a.classes.size →
    a.className c = a.className d → c = d
  bases : ∀ c : ClassId, ∀ b ∈ (a.classAt c).bases, b.val < a.classes.size

namespace NamesApart

variable (h : a.NamesApart)
include h

theorem lt_size_of_derives (hc : c.val < a.classes.size) (hd : a.Derives c d) :
    d.val < a.classes.size :=
  BasesWithin.lt_size_of_derives h.bases hc hd

theorem isSubclass_iff_derives (hc : c.val < a.classes.size) (hd : d.val < a.classes.size) :
    a.isSubclass c d = true ↔ a.Derives c d := by
  rw [isSubclass_iff]
  constructor
  · rintro ⟨e, he, hname⟩
    exact h.names e d (h.lt_size_of_derives hc he) hd hname ▸ he
  · exact fun hcd => ⟨d, hcd, rfl⟩

theorem isSubclass_trans (hb : b.val < a.classes.size) (hc : c.val < a.classes.size)
    (hd : d.val < a.classes.size) (hbc : a.isSubclass b c = true) (hcd : a.isSubclass c d = true) :
    a.isSubclass b d = true := by
  have hderives : a.Derives b c := (h.isSubclass_iff_derives hb hc).1 hbc
  have hfurther : a.Derives c d := (h.isSubclass_iff_derives hc hd).1 hcd
  exact (h.isSubclass_iff_derives hb hd).2 (hderives.trans hfurther)

end NamesApart

end Credence.Arena

import Credence.Proofs.Dotted
import Credence.Proofs.Likeness
import Mathlib.Data.List.Induction

namespace Credence

namespace Ty

variable {given kept : List Ty} {t : Ty}

/-- What a list keeps of the types that it is given: those that are known, in their order, and none that is
like an earlier one. -/
structure Gathered (given kept : List Ty) : Prop where
  sublist : kept.Sublist (given.filter fun t => !t.isUnknown)
  distinct : kept.Pairwise fun s t => s.alike t = false
  among : ∀ t ∈ given, t.isUnknown = false → t.among kept = true

namespace Gathered

theorem nil : Gathered [] [] :=
  ⟨.slnil, .nil, nofun⟩

theorem skip (h : Gathered given kept) (ht : t.isUnknown = false → t.among kept = true) :
    Gathered (given ++ [t]) kept where
  sublist := by
    rw [List.filter_append]
    exact h.sublist.trans (List.sublist_append_left _ _)
  distinct := h.distinct
  among := List.forall_mem_append.2 ⟨h.among, List.forall_mem_singleton.2 ht⟩

theorem keep (h : Gathered given kept) (hknown : t.isUnknown = false) (hnew : t.among kept = false) :
    Gathered (given ++ [t]) (kept ++ [t]) where
  sublist := by
    have ht : [t].filter (fun t => !t.isUnknown) = [t] := by simp [hknown]
    rw [List.filter_append, ht]
    exact h.sublist.append_right [t]
  distinct := by
    rw [List.pairwise_append]
    refine ⟨h.distinct, List.pairwise_singleton _ _, fun s hs u hu => ?_⟩
    rw [List.mem_singleton.1 hu]
    exact Bool.eq_false_iff.2 fun hst => by
      rw [Ty.among, List.any_eq_false] at hnew
      exact hnew s hs hst
  among := by
    have hold (s : Ty) (hs : s.among kept = true) : s.among (kept ++ [t]) = true := by
      rw [Ty.among, List.any_append, ← Ty.among, hs, Bool.true_or]
    have hself : t.among (kept ++ [t]) = true := by
      simp [Ty.among, alike_refl]
    exact List.forall_mem_append.2
      ⟨fun s hs hk => hold s (h.among s hs hk), List.forall_mem_singleton.2 fun _ => hself⟩

end Gathered

end Ty

namespace Container

def certain (elts : List Ty) : Container Ty :=
  { kind := .list, elts, probs := List.replicate elts.length 1.0 }

theorem pushKnown_certain (elts : List Ty) (t : Ty) :
    (certain elts).pushKnown t =
      if t.isUnknown || t.among elts then certain elts else certain (elts ++ [t]) := by
  cases hknown : t.isUnknown with
  | true => simp [pushKnown, hknown]
  | false =>
    have hdefined : t.isUndefined = false := by
      cases t <;> first | rfl | cases hknown
    cases hold : t.among elts with
    | true => simp [pushKnown, push, pushWith, certain, hknown, hdefined, hold]
    | false =>
      simp [pushKnown, push, pushWith, certain, hknown, hdefined, hold, List.replicate_succ']

/-- What is pushed on an empty list one by one is gathered in it. -/
theorem exists_gathered (given : List Ty) :
    ∃ kept, Ty.Gathered given kept ∧ given.foldl pushKnown { kind := .list } = certain kept := by
  induction given using List.reverseRecOn with
  | nil => exact ⟨[], .nil, rfl⟩
  | append_singleton given t ih =>
    obtain ⟨kept, hkept, hfold⟩ := ih
    rw [List.foldl_concat, hfold, pushKnown_certain]
    by_cases hskip : (t.isUnknown || t.among kept) = true
    · rw [if_pos hskip]
      refine ⟨kept, hkept.skip fun hknown => ?_, rfl⟩
      rwa [hknown, Bool.false_or] at hskip
    · rw [if_neg hskip]
      obtain ⟨hknown, hnew⟩ := Bool.or_eq_false_iff.1 (Bool.not_eq_true _ ▸ hskip)
      exact ⟨kept ++ [t], hkept.keep hknown hnew, rfl⟩

end Container

namespace Scopes

variable {s : Scopes} {items : List (String × Ty)}

def setAll (s : Scopes) (items : List (String × Ty)) (confidence : Float) : Scopes :=
  items.foldl (fun s item => s.set item.1 item.2 confidence) s

theorem get?_target_setAll_of_not_mem {name : String} (h : name ∉ items.map (·.1)) (confidence : Float) :
    ((s.setAll items confidence).scopeAt ((s.setAll items confidence).target name)).bindings.get? name =
      (s.scopeAt (s.target name)).bindings.get? name := by
  induction items generalizing s with
  | nil => rfl
  | cons item items ih =>
    rw [List.map_cons, List.mem_cons, not_or] at h
    exact (ih h.2).trans (get?_target_set_of_ne h.1 item.2 confidence)

/-- If the names are all different, each is found bound to its own type in the end. -/
theorem lookup_setAll (hnodup : (items.map (·.1)).Nodup) (hroom : s.Room) (confidence : Float)
    {item : String × Ty} (hitem : item ∈ items) :
    (s.setAll items confidence).lookup item.1 = some { type := item.2, confidence } := by
  induction items generalizing s with
  | nil => exact absurd hitem List.not_mem_nil
  | cons first items ih =>
    obtain ⟨hfirst, hnodup⟩ := List.nodup_cons.1 hnodup
    rcases List.mem_cons.1 hitem with rfl | hitem
    · apply lookup_of_target
      rw [← get?_target_set (hroom item.1) item.2 confidence]
      exact get?_target_setAll_of_not_mem hfirst confidence
    · exact ih hnodup (hroom.set first.1 first.2 confidence) hitem

end Scopes

namespace Check

/-- Targets that are names, all different, of which at most one is starred. -/
structure NamePattern (targets : List Expr) (names : List String) (star? : Option Nat) : Prop where
  length : targets.length = names.length
  nodup : names.Nodup
  plain : ∀ i (h : i < targets.length), star? ≠ some i → targets[i].form = .name names[i]
  starred : ∀ i (h : i < targets.length), star? = some i →
    ∃ inner, targets[i].form = .starred inner ∧ inner.form = .name names[i]
  star_lt : ∀ i, star? = some i → i < names.length

/-- A tuple of the size can be taken apart: a starred target makes up for missing and for further elements. -/
def Suits (size count : Nat) : Option Nat → Prop
  | none => size = count
  | some _ => count ≤ size + 1

/-- What the target at a place gets, out of as many as there are, of a tuple with the elements. -/
inductive Share (elts : List Ty) (count : Nat) (star? : Option Nat) (i : Nat) : Ty → Prop
  | whole (hstar : star? = none) (hi : i < elts.length) : Share elts count star? i elts[i]
  | before {star : Nat} (hstar : star? = some star) (hbefore : i < star) (hi : i < elts.length) :
    Share elts count star? i elts[i]
  | after {star : Nat} (hstar : star? = some star) (hafter : star < i)
    (hi : elts.length + i - count < elts.length) : Share elts count star? i elts[elts.length + i - count]
  | rest {kept : List Ty} (hstar : star? = some i)
    (hkept : Ty.Gathered ((elts.drop i).take (elts.length + 1 - count)) kept) :
    Share elts count star? i (.container (.certain kept))

/-- The bounds at which targets and elements are cut around the star are in order, and none is less than
what is taken from it. -/
structure Cuts (star count size : Nat) : Prop where
  target : star < count
  after : count - star - 1 ≤ size
  middle : star ≤ size - (count - star - 1)

def shares (count : Nat) (elts : List Ty) : Option Nat → List Ty
  | none => elts
  | some star =>
    let middleEnd := elts.length - (count - star - 1)
    let middle := ((elts.take middleEnd).drop star).foldl Container.pushKnown { kind := .list }
    elts.take star ++ .container middle :: elts.drop middleEnd

variable {targets : List Expr} {names : List String} {star? : Option Nat} {elts : List Ty}
  {star count size : Nat}

theorem Suits.cuts (h : Suits size count (some star)) (hstar : star < count) : Cuts star count size := by
  have h : count ≤ size + 1 := h
  exact ⟨hstar, by omega, by omega⟩

theorem length_shares (hsuits : Suits elts.length count star?) (hstar : ∀ i, star? = some i → i < count) :
    (shares count elts star?).length = count := by
  cases star? with
  | none => exact hsuits
  | some star =>
    have hcuts := hsuits.cuts (hstar star rfl)
    have hafter := hcuts.after
    have hmiddle := hcuts.middle
    have htarget := hcuts.target
    simp only [shares, List.length_append, List.length_cons, List.length_take, List.length_drop]
    omega

theorem share_shares (hsuits : Suits elts.length count star?) (hstar : ∀ i, star? = some i → i < count)
    {i : Nat} (hi : i < (shares count elts star?).length) :
    Share elts count star? i (shares count elts star?)[i] := by
  have hcount := length_shares hsuits hstar
  cases star? with
  | none => exact .whole rfl hi
  | some star =>
    have hcuts := hsuits.cuts (hstar star rfl)
    have hafter := hcuts.after
    have hmiddle := hcuts.middle
    have htarget := hcuts.target
    have hfront : (elts.take star).length = star := by
      rw [List.length_take]
      omega
    rw [hcount] at hi
    simp only [shares]
    rcases Nat.lt_trichotomy i star with hlt | rfl | hgt
    · rw [List.getElem_append_left (by omega), List.getElem_take]
      exact .before rfl hlt (by omega)
    · obtain ⟨kept, hkept, hfold⟩ := Container.exists_gathered
        ((elts.take (elts.length - (count - i - 1))).drop i)
      rw [List.getElem_append_right (by omega)]
      simp only [hfront, Nat.sub_self, List.getElem_cons_zero, hfold]
      refine .rest rfl ?_
      rw [List.drop_take] at hkept
      rwa [show elts.length - (count - i - 1) - i = elts.length + 1 - count by omega] at hkept
    · rw [List.getElem_append_right (by omega)]
      have hindex : i - (elts.take star).length = (i - star - 1) + 1 := by omega
      simp only [hindex, List.getElem_cons_succ, List.getElem_drop]
      have hplace : elts.length - (count - star - 1) + (i - star - 1) = elts.length + i - count := by omega
      simp only [hplace]
      exact .after rfl hgt (by omega)

theorem map_unstarred {parts : List Expr} (h : ∀ t ∈ parts, t.unstarred = t) :
    parts.map Expr.unstarred = parts :=
  (List.map_congr_left h).trans (List.map_id parts)

namespace NamePattern

variable (h : NamePattern targets names star?)
include h

theorem star_target {i : Nat} (hi : star? = some i) : i < targets.length := by
  rw [h.length]
  exact h.star_lt i hi

theorem isStarred_iff {i : Nat} (hi : i < targets.length) : targets[i].isStarred = true ↔ star? = some i := by
  by_cases hstar : star? = some i
  · obtain ⟨inner, hform, -⟩ := h.starred i hi hstar
    simp [Expr.isStarred, Expr.starred?, hform, hstar]
  · simp [Expr.isStarred, Expr.starred?, h.plain i hi hstar, hstar]

theorem form_unstarred {i : Nat} (hi : i < targets.length) (hname : i < names.length) :
    targets[i].unstarred.form = .name names[i] := by
  by_cases hstar : star? = some i
  · obtain ⟨inner, hform, hinner⟩ := h.starred i hi hstar
    simpa [Expr.unstarred, Expr.starred?, hform] using hinner
  · have hform := h.plain i hi hstar
    simp [Expr.unstarred, Expr.starred?, hform]

theorem unstarred_eq {i : Nat} (hi : i < targets.length) (hstar : star? ≠ some i) :
    targets[i].unstarred = targets[i] := by
  simp [Expr.unstarred, Expr.starred?, h.plain i hi hstar]

theorem findIdx?_isStarred : targets.findIdx? Expr.isStarred = star? := by
  cases hstar : star? with
  | none =>
    refine List.findIdx?_eq_none_iff.2 fun t ht => ?_
    obtain ⟨i, hi, rfl⟩ := List.mem_iff_getElem.1 ht
    exact Bool.eq_false_iff.2 fun hs => absurd ((h.isStarred_iff hi).1 hs) (by simp [hstar])
  | some star =>
    have hlt := h.star_target hstar
    refine List.findIdx?_eq_some_iff_getElem.2 ⟨hlt, (h.isStarred_iff hlt).2 hstar, fun j hj hs => ?_⟩
    have := (h.isStarred_iff (hj.trans hlt)).1 hs
    rw [hstar, Option.some_inj] at this
    omega

theorem take_unstarred (hstar : star? = some star) :
    (targets.map Expr.unstarred).take star = targets.take star := by
  have hlt := h.star_target hstar
  rw [← List.map_take]
  refine map_unstarred fun t ht => ?_
  obtain ⟨i, hi, rfl⟩ := List.mem_iff_getElem.1 ht
  rw [List.length_take] at hi
  rw [List.getElem_take]
  exact h.unstarred_eq (by omega) (by rw [hstar, Ne, Option.some_inj]; omega)

theorem drop_unstarred (hstar : star? = some star) :
    (targets.map Expr.unstarred).drop (star + 1) = targets.drop (star + 1) := by
  rw [← List.map_drop]
  refine map_unstarred fun t ht => ?_
  obtain ⟨i, hi, rfl⟩ := List.mem_iff_getElem.1 ht
  rw [List.length_drop] at hi
  rw [List.getElem_drop]
  exact h.unstarred_eq (by omega) (by rw [hstar, Ne, Option.some_inj]; omega)

theorem distribute_eq {c : Container Ty} (hkind : c.kind = .tuple) (hne : c.elts ≠ [])
    (hsuits : Suits c.elts.length targets.length star?) :
    distribute targets (.container c) =
      (targets.map Expr.unstarred).zip (shares targets.length c.elts star?) := by
  have htuple : (c.kind == .tuple && !c.isEmpty) = true := by
    simp [hkind, Container.isEmpty, hne]
  simp only [distribute, htuple, if_true, h.findIdx?_isStarred]
  cases hstar : star? with
  | none =>
    rw [hstar] at hsuits
    have hplain : targets.map Expr.unstarred = targets := by
      refine map_unstarred fun t ht => ?_
      obtain ⟨i, hi, rfl⟩ := List.mem_iff_getElem.1 ht
      exact h.unstarred_eq hi (by simp [hstar])
    have hlength : (c.elts.length == targets.length) = true := beq_iff_eq.2 hsuits
    simp only [hlength, if_true, hplain, shares]
  | some star =>
    rw [hstar] at hsuits
    have hlt := h.star_target hstar
    have hcuts := hsuits.cuts hlt
    have hle : targets.length ≤ c.elts.length + 1 := hsuits
    have hafter := hcuts.after
    have hmiddle := hcuts.middle
    have hsplit : targets.map Expr.unstarred =
        targets.take star ++ targets[star].unstarred :: targets.drop (star + 1) := by
      rw [← h.take_unstarred hstar, ← h.drop_unstarred hstar,
        ← List.getElem_map Expr.unstarred (h := by simpa using hlt), List.getElem_cons_drop,
        List.take_append_drop]
    have hfront : (targets.take star).length = (c.elts.take star).length := by
      rw [List.length_take, List.length_take]
      omega
    have hhead : (targets.drop star).take 1 = [targets[star]] := by
      rw [List.drop_eq_getElem_cons hlt, List.take_succ_cons, List.take_zero]
    simp only [hle, if_true]
    rw [hsplit, shares, List.zip_append hfront, List.zip_cons_cons, distributeAround, hhead]
    simp only [List.map_cons, List.map_nil, List.append_assoc, List.singleton_append]

end NamePattern

variable {c : Context} {inner : Inner}

theorem assign_fresh {target : Expr} {name : String} (hform : target.form = .name name) (value : Ty)
    (confidence : Float) (s : Session) :
    (assign inner target value confidence .fresh).outcome c s =
      (.ok (), { s with scopes := s.scopes.set name value confidence }) := by
  rw [assign.eq_def]
  rcases target with ⟨id, form, span⟩
  obtain rfl : form = _ := hform
  rfl

theorem assign_targets {target : Expr} (hform : target.form = .tuple targets ∨ target.form = .list targets)
    (value : Ty) (confidence : Float) (mode : BindMode) :
    assign inner target value confidence mode =
      (distribute targets value).forM fun item => assign inner item.1 item.2 confidence mode := by
  have hattach (f : Expr × Ty → CheckM PUnit) :
      (distribute targets value).attach.forM (fun item => f item.1) = (distribute targets value).forM f := by
    have hmap : forM ((distribute targets value).attach.map Subtype.val) f =
        forM (distribute targets value).attach fun item => f item.1 := List.forM_map
    rw [List.attach_map_subtype_val] at hmap
    exact hmap.symm
  rw [assign.eq_def, ← hattach]
  rcases target with ⟨id, form, span⟩
  rcases hform with hform | hform
  · obtain rfl : form = _ := hform
    rfl
  · obtain rfl : form = _ := hform
    rfl

theorem outcome_forM_fresh {parts : List Expr} (hforms : parts.map (·.form) = names.map .name)
    (types : List Ty) (confidence : Float) (s : Session) :
    ((parts.zip types).forM fun item => assign inner item.1 item.2 confidence .fresh).outcome c s =
      (.ok (), { s with scopes := s.scopes.setAll (names.zip types) confidence }) := by
  induction parts generalizing names types s with
  | nil =>
    obtain rfl := List.map_eq_nil_iff.1 hforms.symm
    rfl
  | cons part parts ih =>
    cases names with
    | nil => cases hforms
    | cons name names =>
      obtain ⟨hform, hforms⟩ := List.cons.inj hforms
      cases types with
      | nil => rfl
      | cons type types =>
        simp only [List.zip_cons_cons, List.forM_eq_forM, List.forM_cons, CheckM.outcome_bind,
          assign_fresh hform, CheckM.andThen_ok]
        exact ih hforms types _

/-- A tuple is taken apart by position. It is cut within bounds; the names are bound in turn, each to its
share of the elements, and each is found bound to it in the end. -/
theorem assign_fresh_tuple (c : Context) (inner : Inner) (s : Session) {target : Expr} {targets : List Expr}
    {names : List String} {star? : Option Nat} {tuple : Container Ty} (confidence : Float)
    (hform : target.form = .tuple targets ∨ target.form = .list targets)
    (hpattern : NamePattern targets names star?) (hkind : tuple.kind = .tuple) (hne : 1 ≤ tuple.elts.length)
    (hsuits : Suits tuple.elts.length names.length star?)
    (hroom : s.scopes.Room) :
    (∀ star, star? = some star → Cuts star names.length tuple.elts.length) ∧
      ∃ types : List Ty, types.length = names.length ∧
        (∀ i type, types[i]? = some type → Share tuple.elts names.length star? i type) ∧
        (assign inner target (.container tuple) confidence .fresh).outcome c s =
          (.ok (), { s with scopes := s.scopes.setAll (names.zip types) confidence }) ∧
        ∀ (i : Nat) (name : String) (type : Ty), names[i]? = some name → types[i]? = some type →
          (s.scopes.setAll (names.zip types) confidence).lookup name = some { type, confidence } := by
  refine ⟨fun star hstar => ?_, shares names.length tuple.elts star?, ?_, ?_, ?_, ?_⟩
  · rw [hstar] at hsuits
    exact hsuits.cuts (hpattern.star_lt star hstar)
  · exact length_shares hsuits hpattern.star_lt
  · intro i type htype
    obtain ⟨hi, rfl⟩ := List.getElem?_eq_some_iff.1 htype
    exact share_shares hsuits hpattern.star_lt hi
  · have hforms : (targets.map Expr.unstarred).map (·.form) = names.map .name := by
      apply List.ext_getElem
      · simp [hpattern.length]
      · intro i hi _
        rw [List.length_map, List.length_map] at hi
        simp [hpattern.form_unstarred hi (hpattern.length ▸ hi)]
    have hcount : Suits tuple.elts.length targets.length star? := hpattern.length ▸ hsuits
    rw [assign_targets hform, hpattern.distribute_eq hkind (List.ne_nil_of_length_pos hne) hcount,
      outcome_forM_fresh hforms, hpattern.length]
  · intro i name type hname htype
    have hlength := length_shares hsuits hpattern.star_lt
    have hitem : (name, type) ∈ names.zip (shares names.length tuple.elts star?) := by
      apply List.mem_of_getElem?
      exact List.getElem?_zip_eq_some.2 ⟨hname, htype⟩
    have hnames : (names.zip (shares names.length tuple.elts star?)).map (·.1) = names :=
      List.map_fst_zip (Nat.le_of_eq hlength.symm)
    exact Scopes.lookup_setAll (hnames.symm ▸ hpattern.nodup) hroom confidence hitem

def starredTargets : List Expr :=
  [⟨2, .name "a", default⟩, ⟨3, .starred ⟨4, .name "b", default⟩, default⟩, ⟨5, .name "c", default⟩]

theorem namePattern_starredTargets : NamePattern starredTargets ["a", "b", "c"] (some 1) where
  length := rfl
  nodup := by decide
  plain
    | 0, _, _ => rfl
    | 1, _, h => absurd rfl h
    | 2, _, _ => rfl
  starred
    | 0, _, h => nomatch h
    | 1, _, _ => ⟨_, rfl, rfl⟩
    | 2, _, h => nomatch h
  star_lt _ h := by
    obtain rfl := Option.some_inj.1 h
    decide

/-- The star takes two of four elements. -/
theorem assign_fresh_tuple_starred :
    Suits 4 3 (some 1) ∧ Session.first.scopes.Room ∧ Cuts 1 3 4 ∧
      ∃ type, Share [.int, .any, .str, .int] 3 (some 1) 1 type ∧
        ((assign (innerUpTo 0) ⟨1, .tuple starredTargets, default⟩ (.tupleOf [.int, .any, .str, .int]) 1.0
          .fresh).outcome siblings Session.first).2.scopes.lookup "b" = some { type, confidence := 1.0 } := by
  have hsuits : Suits 4 3 (some 1) := Nat.le_add_left 3 2
  have hroom : Session.first.scopes.Room := fun _ => Nat.zero_lt_one
  obtain ⟨hcuts, types, hlength, hshare, houtcome, hlookup⟩ :=
    @assign_fresh_tuple siblings (innerUpTo 0) Session.first ⟨1, .tuple starredTargets, default⟩ starredTargets
      ["a", "b", "c"] (some 1) (.ofElts .tuple [.int, .any, .str, .int]) 1.0 (.inl rfl) namePattern_starredTargets
      rfl (by decide) hsuits hroom
  have hlt : 1 < types.length := by
    rw [hlength]
    decide
  have htype : types[1]? = some types[1] := List.getElem?_eq_getElem hlt
  refine ⟨hsuits, hroom, hcuts 1 rfl, types[1], hshare 1 _ htype, ?_⟩
  rw [Ty.tupleOf, houtcome]
  exact hlookup 1 "b" _ rfl htype

end Check
end Credence

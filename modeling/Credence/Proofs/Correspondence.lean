import Credence.Proofs.Likeness
import Credence.Proofs.Reached

namespace Credence

section Lists

variable {α β : Type} {rel : α → β → Prop} {r : α → α → Prop} {s : β → β → Prop}

/-- What holds of a pair of members, in order, holds of their images. -/
theorem pairwise_of_forall₂ {xs : List α} {ys : List β} (h : List.Forall₂ rel xs ys)
    (hr : xs.Pairwise r)
    (himp : ∀ x ∈ xs, ∀ x' ∈ xs, ∀ y y', rel x y → rel x' y' → r x x' → s y y') :
    ys.Pairwise s := by
  induction h with
  | nil => exact .nil
  | @cons x y xs ys hxy htail ih =>
    obtain ⟨hx, hxs⟩ := List.pairwise_cons.1 hr
    refine List.pairwise_cons.2 ⟨fun y' hy' => ?_, ih hxs fun a ha b hb => ?_⟩
    · obtain ⟨x', hx', hrel⟩ := exists_of_forall₂ htail.flip hy'
      exact himp x (by simp) x' (by simp [hx']) y y' hxy hrel (hx x' hx')
    · exact himp a (by simp [ha]) b (by simp [hb])

theorem forall₂_of_images {xs xs' : List α} {ys ys' : List β} (h : List.Forall₂ rel xs ys)
    (h' : List.Forall₂ rel xs' ys') (hs : List.Forall₂ s ys ys')
    (himp : ∀ x ∈ xs, ∀ x' ∈ xs', ∀ y y', rel x y → rel x' y' → s y y' → r x x') :
    List.Forall₂ r xs xs' := by
  induction h generalizing xs' ys' with
  | nil =>
    cases hs
    cases h'
    exact .nil
  | cons hxy _ ih =>
    cases hs with
    | cons hy hys =>
      cases h' with
      | cons hxy' htail' =>
        refine .cons (himp _ (by simp) _ (by simp) _ _ hxy hxy' hy) (ih htail' hys fun x hx x' hx' => ?_)
        exact himp x (by simp [hx]) x' (by simp [hx'])

theorem covered_of_images {xs xs' : List α} {ys ys' : List β} (h : List.Forall₂ rel xs ys)
    (h' : List.Forall₂ rel xs' ys') (hs : ∀ y ∈ ys, ∃ y' ∈ ys', s y' y)
    (himp : ∀ x ∈ xs, ∀ x' ∈ xs', ∀ y y', rel x y → rel x' y' → s y' y → r x' x) :
    ∀ x ∈ xs, ∃ x' ∈ xs', r x' x := by
  intro x hx
  obtain ⟨y, hy, hxy⟩ := exists_of_forall₂ h hx
  obtain ⟨y', hy', hs⟩ := hs y hy
  obtain ⟨x', hx', hxy'⟩ := exists_of_forall₂ h'.flip hy'
  exact ⟨x', hx', himp x hx x' hx' y y' hxy hxy' hs⟩

theorem forall₂_zip {γ δ : Type} {other : γ → δ → Prop} {xs : List α} {ys : List β} {zs : List γ}
    {ws : List δ} (h : List.Forall₂ rel xs ys) (k : List.Forall₂ other zs ws) :
    List.Forall₂ (fun p q => rel p.1 q.1 ∧ other p.2 q.2) (xs.zip zs) (ys.zip ws) := by
  induction h generalizing zs ws with
  | nil => exact .nil
  | cons hxy _ ih =>
    cases k with
    | nil => exact .nil
    | cons hzw htail => exact .cons ⟨hxy, hzw⟩ (ih htail)

end Lists

namespace Ty

variable {R : Entry → Entry → Prop}

theorem Copied.isUnion {t u : Ty} (h : t.Copied R u) : u.isUnion = t.isUnion := by
  cases h <;> rfl

theorem Copied.isUndefined {t u : Ty} (h : t.Copied R u) : u.isUndefined = t.isUndefined := by
  cases h <;> rfl

theorem Copied.isHashable {t u : Ty} (h : t.Copied R u) : u.isHashable = t.isHashable := by
  cases h <;> rfl

theorem filter_append_of_copied {ts us : List Ty} (h : List.Forall₂ (Copied R) ts us)
    (hts : ts.filter (·.isHashable) ++ ts.filter (!·.isHashable) = ts) :
    us.filter (·.isHashable) ++ us.filter (!·.isHashable) = us := by
  induction h with
  | nil => rfl
  | @cons t u ts us htu htail ih =>
    by_cases ht : t.isHashable = true
    · have hu : u.isHashable = true := htu.isHashable.trans ht
      simp only [List.filter_cons_of_pos ht, List.filter_cons_of_pos hu, List.cons_append,
        List.cons.injEq, true_and, ht, hu, Bool.not_true, Bool.false_eq_true, not_false_eq_true,
        List.filter_cons_of_neg] at hts ⊢
      exact ih hts
    · -- Nothing that can be hashed comes after what cannot be.
      have hnone : ts.filter (·.isHashable) = [] := by
        rw [List.filter_cons_of_neg ht] at hts
        cases hfilter : ts.filter (·.isHashable) with
        | nil => rfl
        | cons x rest =>
          rw [hfilter] at hts
          have hx : x ∈ ts.filter (·.isHashable) := hfilter ▸ List.mem_cons_self
          exact absurd ((List.cons.inj hts).1 ▸ List.of_mem_filter hx) ht
      have hall : ∀ x ∈ u :: us, x.isHashable = false := by
        intro x hx
        obtain ⟨y, hy, hyx⟩ := exists_of_forall₂ (List.Forall₂.cons htu htail).flip hx
        rw [hyx.isHashable]
        rcases List.mem_cons.1 hy with rfl | hy
        · exact Bool.eq_false_iff.2 ht
        · exact Bool.eq_false_iff.2 (List.filter_eq_nil_iff.1 hnone y hy)
      rw [List.filter_eq_nil_iff.2 fun x hx => by rw [hall x hx]; exact Bool.false_ne_true,
        List.filter_eq_self.2 fun x hx => by rw [hall x hx]; rfl, List.nil_append]

/-- The copies of the alternatives of a union are a union in normal form if distinct copies of smaller
types than the union are alike only if the types are. -/
theorem normal_of_copied {u : Union Ty} {elts : List Ty} (hu : u.Normal)
    (h : List.Forall₂ (Copied R) u.elts elts)
    (himp : ∀ s ∈ u.elts, ∀ t ∈ u.elts, ∀ s' t', s.Copied R s' → t.Copied R t' →
      s'.alike t' = true → s.alike t = true) : Union.Normal { elts, probs := u.probs } where
  distinct := by
    refine pairwise_of_forall₂ h hu.distinct fun s hs t ht s' t' hss htt hst => ?_
    exact Bool.eq_false_iff.2 fun hlike => Bool.eq_false_iff.1 hst (himp s hs t ht s' t' hss htt hlike)
  isUnion t' ht' := by
    obtain ⟨t, ht, htt⟩ := exists_of_forall₂ h.flip ht'
    exact htt.isUnion.trans (hu.isUnion t ht)
  isUndefined t' ht' := by
    obtain ⟨t, ht, htt⟩ := exists_of_forall₂ h.flip ht'
    exact htt.isUndefined.trans (hu.isUndefined t ht)
  hashable := filter_append_of_copied h hu.hashable
  probs := hu.probs.trans h.length_eq

theorem Copied.isLeaf {t u : Ty} (h : t.Copied R u) : u.isLeaf = t.isLeaf := by
  cases h <;> rfl

section Distinct

variable (hR : ∀ e g f, R e f → R g f → e = g)
include hR

theorem alike_of_copied_leaf {t u t' u' : Ty} (hleaf : t.isLeaf = true) (htt : t.Copied R t')
    (huu : u.Copied R u') (h : t'.alike u' = true) : t.alike u = true := by
  obtain rfl | ⟨f, g, rfl, rfl, hname⟩ := (alike_leaf (htt.isLeaf.trans hleaf)).1 h
  · suffices t = u from this ▸ alike_refl t
    cases htt with
    | container | union => cases hleaf
    | classObj hp => cases huu with | classObj hq => cases hR _ _ _ hp hq; rfl
    | object hp => cases huu with | object hq => cases hR _ _ _ hp hq; rfl
    | function hp => cases huu with | function hq => cases hR _ _ _ hp hq; rfl
    | method ho hf => cases huu with | method ho' hf' => cases hR _ _ _ ho ho'; cases hR _ _ _ hf hf'; rfl
    | module hp => cases huu with | module hq => cases hR _ _ _ hp hq; rfl
    | _ => cases huu; rfl
  · cases htt
    cases huu
    exact (alike_leaf rfl).2 (.inr ⟨f, g, rfl, rfl, hname⟩)

/-- Types are alike if their copies are, as long as distinct entries have distinct copies. -/
theorem alike_of_copied {has : Entry → Prop} (n : Nat) {t u t' u' : Ty}
    (ht : sizeOf t < n ∧ t.Sound has) (hu : sizeOf u < n ∧ u.Sound has)
    (htt : t.Copied R t') (huu : u.Copied R u') (h : t'.alike u' = true) : t.alike u = true := by
  induction n generalizing t u t' u' with
  | zero => exact absurd ht.1 (Nat.not_lt_zero _)
  | succ n ih =>
    have smaller {s part : Ty} (hs : sizeOf s < n + 1) (hpart : sizeOf part < sizeOf s) :
        sizeOf part < n := by omega
    have hcopied := htt
    cases htt with
    | @container c elts values helts hvalues =>
      obtain ⟨_, rfl⟩ := exists_of_alike_container h
      cases huu with
      | @container d elts' values' helts' hvalues' =>
      have left : ∀ x ∈ c.elts, sizeOf x < n ∧ x.Sound has :=
        fun x hx => ⟨smaller ht.1 (sizeOf_lt_of_mem_elts hx), ht.2.elts x hx⟩
      have right : ∀ x ∈ d.elts, sizeOf x < n ∧ x.Sound has :=
        fun x hx => ⟨smaller hu.1 (sizeOf_lt_of_mem_elts hx), hu.2.elts x hx⟩
      have bag (hkind : c.kind = .list ∨ c.kind = .set) :
          (Ty.container c).alike (.container d) = true := by
        obtain ⟨hsame, hlen, hcover⟩ := (alike_bag (a := { c with elts, values }) hkind).1 h
        refine (alike_bag hkind).2 ⟨hsame, ?_, covered_of_images helts helts' hcover ?_⟩
        · exact helts.length_eq.trans (hlen.trans helts'.length_eq.symm)
        · exact fun x hx y hy x' y' hxx hyy => ih (right y hy) (left x hx) hyy hxx
      cases hkind : c.kind with
      | tuple =>
        obtain ⟨hsame, hall⟩ := (alike_tuple (a := { c with elts, values }) hkind).1 h
        refine (alike_tuple hkind).2 ⟨hsame, forall₂_of_images helts helts' hall ?_⟩
        exact fun x hx y hy x' y' hxx hyy => ih (left x hx) (right y hy) hxx hyy
      | list => exact bag (.inl hkind)
      | set => exact bag (.inr hkind)
      | dict =>
        obtain ⟨hsame, hlen, hcover⟩ := (alike_dict (a := { c with elts, values }) hkind).1 h
        refine (alike_dict hkind).2 ⟨hsame, ?_, fun p hp => ?_⟩
        · exact helts.length_eq.trans (hlen.trans helts'.length_eq.symm)
        obtain ⟨p', hp', hpp⟩ := exists_of_forall₂ (forall₂_zip helts hvalues) hp
        obtain ⟨q', hq', hkey, hvalue⟩ := hcover p' hp'
        obtain ⟨q, hq, hqq⟩ := exists_of_forall₂ (forall₂_zip helts' hvalues').flip hq'
        have hpv := (List.of_mem_zip hp).2
        have hqv := (List.of_mem_zip hq).2
        refine ⟨q, hq, ?_, ?_⟩
        · exact ih (left _ (List.of_mem_zip hp).1) (right _ (List.of_mem_zip hq).1) hpp.1 hqq.1 hkey
        · exact ih ⟨smaller ht.1 (sizeOf_lt_of_mem_values hpv), ht.2.values _ hpv⟩
            ⟨smaller hu.1 (sizeOf_lt_of_mem_values hqv), hu.2.values _ hqv⟩ hpp.2 hqq.2 hvalue
    | @union u elts helts =>
      obtain ⟨_, hv⟩ := exists_of_alike_union h
      cases huu with
      | @union v elts' helts' =>
      have left : ∀ x ∈ u.elts, sizeOf x < n ∧ x.Sound has :=
        fun x hx => ⟨smaller ht.1 (sizeOf_lt_of_mem_union hx), ht.2.ofUnion x hx⟩
      have right : ∀ x ∈ v.elts, sizeOf x < n ∧ x.Sound has :=
        fun x hx => ⟨smaller hu.1 (sizeOf_lt_of_mem_union hx), hu.2.ofUnion x hx⟩
      have hnormal := normal_of_copied ht.2.normal helts fun s hs t ht s' t' =>
        ih (left s hs) (left t ht)
      have hnormal' := normal_of_copied hu.2.normal helts' fun s hs t ht s' t' =>
        ih (right s hs) (right t ht)
      obtain ⟨hlen, hcover⟩ := alike_union.1 h
      rw [hnormal.elts_ofList, hnormal'.elts_ofList] at hlen hcover
      refine alike_union.2 ⟨?_, covered_of_images helts helts' hcover ?_⟩
      · exact helts.length_eq.trans (hlen.trans helts'.length_eq.symm)
      · exact fun x hx y hy x' y' hxx hyy => ih (right y hy) (left x hx) hyy hxx
      | _ => cases hv
    | _ => exact alike_of_copied_leaf hR rfl hcopied huu h

theorem elts_of_copied_union {has : Entry → Prop} {u : Union Ty} {elts : List Ty}
    (hu : (Ty.union u).Sound has) (h : List.Forall₂ (Copied R) u.elts elts) :
    (Union.ofList elts (some u.probs)).elts = elts := by
  have hbelow : ∀ x ∈ u.elts, sizeOf x < sizeOf (Ty.union u) ∧ x.Sound has :=
    fun x hx => ⟨sizeOf_lt_of_mem_union hx, hu.ofUnion x hx⟩
  have hnormal := normal_of_copied hu.normal h fun s hs t ht s' t' =>
    alike_of_copied hR _ (hbelow s hs) (hbelow t ht)
  exact hnormal.elts_ofList _

end Distinct

/-- A type and one that names corresponding entries instead, and is the same otherwise, in the signatures
of builtins too. The probabilities of a union may be scaled. -/
inductive Corresponds (R : Entry → Entry → Prop) : Ty → Ty → Prop
  | any : Corresponds R .any .any
  | undefined : Corresponds R .undefined .undefined
  | prim (p : Prim) : Corresponds R (.prim p) (.prim p)
  | container {c : Container Ty} {elts values : List Ty} :
    List.Forall₂ (Corresponds R) c.elts elts → List.Forall₂ (Corresponds R) c.values values →
    Corresponds R (.container c) (.container { c with elts, values })
  | union {u v : Union Ty} : List.Forall₂ (Corresponds R) u.elts v.elts →
    v.probs.length = u.probs.length → Corresponds R (.union u) (.union v)
  | builtin {b : Builtin Ty} {params : List Ty} {ret : Ty} :
    List.Forall₂ (Corresponds R) b.params params → Corresponds R b.ret ret →
    Corresponds R (.builtin b) (.builtin { b with params, ret })
  | classObj {id copy : ClassId} : R (.cls id) (.cls copy) →
    Corresponds R (.classObj id) (.classObj copy)
  | object {id copy : ObjectId} : R (.object id) (.object copy) →
    Corresponds R (.object id) (.object copy)
  | function {id copy : FunctionId} : R (.function id) (.function copy) →
    Corresponds R (.function id) (.function copy)
  | method {object copy : ObjectId} {id method : FunctionId} :
    R (.object object) (.object copy) → R (.function id) (.function method) →
    Corresponds R (.method object id) (.method copy method)
  | module {id copy : ModuleId} : R (.module id) (.module copy) →
    Corresponds R (.module id) (.module copy)

theorem Sound.corresponds_self {t : Ty} (h : t.Sound fun _ => False) : t.Corresponds R t := by
  induction h with
  | any => exact .any
  | undefined => exact .undefined
  | prim p => exact .prim p
  | container _ _ elts values =>
    exact .container (List.forall₂_same.2 elts) (List.forall₂_same.2 values)
  | union _ _ elts => exact .union (List.forall₂_same.2 elts) rfl
  | builtin _ _ params ret => exact .builtin (List.forall₂_same.2 params) ret
  | classObj h | object h | function h | method h | module h => exact h.elim

theorem Copied.corresponds {has : Entry → Prop} (hR : ∀ e g f, R e f → R g f → e = g) {t u : Ty}
    (h : t.Copied R u) (ht : t.Sound has) (hf : ∀ e, ¬t.Fixes e) : t.Corresponds R u := by
  induction ht generalizing u with
  | any => cases h; exact .any
  | undefined => cases h; exact .undefined
  | prim p => cases h; exact .prim p
  | @container c helts hvalues elts values =>
    cases h with
    | container kelts kvalues =>
      refine .container (forall₂_imp_of_mem kelts fun t ht u h => ?_)
        (forall₂_imp_of_mem kvalues fun t ht u h => ?_)
      · exact elts t ht h fun e he => hf e (.elt ht he)
      · exact values t ht h fun e he => hf e (.value ht he)
  | @union u normal helts elts =>
    cases h with
    | union kelts =>
      refine .union ?_ ?_
      · rw [elts_of_copied_union hR (.union normal helts) kelts]
        exact forall₂_imp_of_mem kelts fun t ht u h => elts t ht h fun e he => hf e (.alternative ht he)
      · rw [Union.length_probs_ofList, elts_of_copied_union hR (.union normal helts) kelts, normal.probs]
        exact kelts.length_eq.symm
  | classObj => cases h with | classObj h => exact .classObj h
  | object => cases h with | object h => exact .object h
  | function => cases h with | function h => exact .function h
  | method => cases h with | method ho hm => exact .method ho hm
  | @builtin b hparams hret =>
    cases h
    have hnone : (Ty.builtin b).Sound fun _ => False :=
      (Sound.builtin hparams hret).of_names nofun hf
    exact hnone.corresponds_self
  | module => cases h with | module h => exact .module h

end Ty

namespace Adoption

variable {w : World} {P : Entry → Prop} {arena : Arena} {scopes : Scopes} {b : Adoption}

/-- An adoption of types under which entries of a world correspond to entries of the target: each is the
same there field by field, up to this correspondence. -/
structure Faithful (w : World) (ts us : List Ty) (a b : Adoption) : Prop where
  types : List.Forall₂ (Ty.Corresponds b.Pairs) ts us
  fields : ∀ e f, b.Pairs e f → e ≠ .scope Scopes.global → w.Matches b.target b.Pairs e f
  stored : ∀ e f, b.Pairs e f → e ≠ .scope Scopes.global → ∀ t u, w.Stores e t →
    t.Copied b.Pairs u → t.Corresponds b.Pairs u
  distinct : ∀ e g f, b.Pairs e f → b.Pairs g f → e = g
  outermost : ∀ f, b.Pairs (.scope Scopes.global) f ↔ f = .scope Scopes.global
  older : ∀ id copy : ClassId, b.Pairs (.cls id) (.cls copy) →
    ∀ base ∈ (b.arena.classAt copy).bases, base.val < copy.val
  unchanged : ∀ f, a.target.Contains f → b.target.Contains f ∧ a.target.SameAt b.target f

end Adoption

open Adoption

/-- A world with what some types lead to: no signature of a builtin there names entries. -/
structure World.PlainFor (w : World) (ts : List Ty) : Prop where
  types : ∀ t ∈ ts, ∀ e, ¬t.Fixes e
  stored : ∀ {e f : Entry} {t : Ty}, w.Spans (fun root => ∃ t ∈ ts, t.Mentions root) e →
    w.Stores e t → ¬t.Fixes f

theorem World.Sound.grounded {w : World} (h : w.Sound) (P : Entry → Prop) : w.Grounded P := by
  intro id _ hself
  have older {id base : ClassId} (hi : w.Inherits id base) : base.val < id.val := by
    induction hi with
    | single hbase => exact (h.arena.cls _).older _ hbase
    | tail _ hbase ih => exact Nat.lt_trans ((h.arena.cls _).older _ hbase) ih
  exact Nat.lt_irrefl _ (older hself)

/-- Whatever is adopted from the world of a table that a run made, into a world with an outermost scope,
is adopted, and is there what it was, as long as no signature of a builtin names entries. -/
theorem SymbolTable.Produced.faithful {table : SymbolTable} (h : table.Produced) {ts : List Ty}
    (hts : ∀ t ∈ ts, t.Sound table.world.Contains) (hplain : table.world.PlainFor ts)
    (arena : Arena) (scopes : Scopes)
    (hglobal : World.Contains ⟨arena, scopes⟩ (.scope Scopes.global)) :
    ∃ us b, (ts.mapM (adopt (copier table.world))).run { arena, scopes } = .ok (us, b) ∧
      Faithful table.world ts us { arena, scopes } b := by
  have hworld := h.sound.world
  let roots (root : Entry) : Prop := ∃ t ∈ ts, t.Mentions root
  have hcopying : Copying table.world (table.world.Spans roots)
      (table.world.Grounded (table.world.Spans roots)) (ts.mapM (adopt (copier table.world)))
      { arena, scopes } fun R => List.Forall₂ (Ty.Copied R) ts := by
    refine Copying.mapM (fun _ _ hRS _ _ h => h.mono hRS) fun t ht b _ => ?_
    exact copying_adopt (table.world.closed_spans roots) fun e he =>
      table.world.spans_of_root ⟨t, ht, he⟩
  have hgives := hcopying (valid_start arena scopes)
  unfold Gives at hgives
  cases hrun : (ts.mapM (adopt (copier table.world))).run { arena, scopes } with
  | error e =>
    rw [hrun] at hgives
    exact absurd (hworld.grounded _) hgives.2
  | ok result =>
    obtain ⟨us, b⟩ := result
    rw [hrun] at hgives
    obtain ⟨hx, htypes⟩ := hgives
    have hdistinct := hx.eq_of_pairs hglobal
    have hfields (e f : Entry) (hp : b.Pairs e f) (hne : e ≠ .scope Scopes.global) :
        table.world.Matches b.target b.Pairs e f := hx.copies hp (not_pairs_start hne)
    refine ⟨us, b, rfl, ?_⟩
    refine
      { fields := hfields, distinct := hdistinct, unchanged := fun f hf => hx.keeps hf
        types := forall₂_imp_of_mem htypes fun t ht u htu => ?_
        stored := fun e f hp hne t u hs htu => ?_
        outermost := fun f => ⟨fun hp => ?_, fun hf => hf.symm ▸ .inl ⟨rfl, rfl⟩⟩
        older := fun id copy hp => (hfields _ _ hp nofun).2 }
    · exact htu.corresponds hdistinct (hts t ht) (hplain.types t ht)
    · exact htu.corresponds hdistinct (hworld.stores hs) fun g =>
        hplain.stored (hx.inside hp (not_pairs_start hne)) hs
    · exact hx.single (e := .scope Scopes.global) not_false (single_start _) hp (.inl ⟨rfl, rfl⟩)

def World.storedTypes (w : World) : List Ty :=
  w.arena.classes.toList.flatMap (fun c => c.attributes.entries.map (·.2.type)) ++
    w.arena.objects.toList.flatMap (fun o => o.overlay.entries.map (·.2)) ++
    w.arena.functions.toList.flatMap (fun f =>
      f.signature.all.flatMap (fun p => p.ascribed.toList ++ p.default.toList) ++
        f.declaredReturn.toList ++ f.lastReturn.toList) ++
    w.arena.modules.toList.flatMap (fun m => m.exports.entries.map (·.2)) ++
    (List.range' 1 (w.scopes.all.size - 1)).flatMap (fun i =>
      (w.scopes.scopeAt ⟨i⟩).bindings.entries.map (·.2.type))

theorem mem_flatMap_of_getD {α β : Type} {xs : Array α} {d : α} {f : α → List β} {i : Nat} {y : β} (hd : f d = [])
    (h : y ∈ f (xs.getD i d)) : y ∈ xs.toList.flatMap f := by
  by_cases hi : i < xs.size
  · rw [← Array.getElem_eq_getD (h := hi)] at h
    exact List.mem_flatMap.2 ⟨xs[i], Array.getElem_mem_toList hi, h⟩
  · rw [getD_of_not_lt hi, hd] at h
    exact absurd h List.not_mem_nil

theorem World.mem_storedTypes {w : World} {e : Entry} {t : Ty} (h : w.Stores e t) : t ∈ w.storedTypes := by
  simp only [storedTypes, List.mem_append]
  cases h with
  | slot h =>
    exact .inl (.inl (.inl (.inl (mem_flatMap_of_getD rfl (List.mem_map_of_mem h)))))
  | overlay h =>
    exact .inl (.inl (.inl (.inr (mem_flatMap_of_getD rfl (List.mem_map_of_mem h)))))
  | @param id p _ hp huses =>
    refine .inl (.inl (.inr (mem_flatMap_of_getD (d := default) (i := id.val) rfl ?_)))
    refine List.mem_append_left _ (List.mem_append_left _ (List.mem_flatMap.2 ⟨p, hp, ?_⟩))
    rcases huses with h | h <;> simp [h]
  | @declared id _ h =>
    refine .inl (.inl (.inr (mem_flatMap_of_getD (d := default) (i := id.val) rfl ?_)))
    exact List.mem_append_left _ (List.mem_append_right _ (Option.mem_toList.2 h))
  | @last id _ h =>
    refine .inl (.inl (.inr (mem_flatMap_of_getD (d := default) (i := id.val) rfl ?_)))
    exact List.mem_append_right _ (Option.mem_toList.2 h)
  | exported h =>
    exact .inl (.inr (mem_flatMap_of_getD rfl (List.mem_map_of_mem h)))
  | @binding id _ b hid h =>
    have hsize : id.val < w.scopes.all.size := by
      by_contra hout
      have hdefault : w.scopes.scopeAt id = default := getD_of_not_lt hout
      rw [hdefault] at h
      exact absurd h List.not_mem_nil
    have hinner : id.val ≠ 0 := fun hzero => hid (congrArg ScopeId.mk hzero)
    refine .inr (List.mem_flatMap.2 ⟨id.val, List.mem_range'_1.2 (by omega), List.mem_map_of_mem h⟩)

def Ty.isSimple : Ty → Bool
  | .container _ | .union _ | .builtin _ => false
  | _ => true

theorem Ty.not_fixes_of_isSimple {t : Ty} (h : t.isSimple = true) (e : Entry) : ¬t.Fixes e := by
  intro hfixes
  cases hfixes <;> cases h

theorem World.not_fixes_of_stores {w : World} (h : w.storedTypes.all Ty.isSimple = true) {e f : Entry} {t : Ty}
    (hs : w.Stores e t) : ¬t.Fixes f := by
  have hmem := World.mem_storedTypes hs
  exact Ty.not_fixes_of_isSimple (List.all_eq_true.1 h t hmem) f

/-- The table that a run has made, or else one of the builtins. -/
def tableOf : Except Stop Outcome → SymbolTable
  | .ok outcome => outcome.table
  | .error _ => ⟨.withBuiltins, Scopes.global, ""⟩

def Job.relayed : SymbolTable :=
  tableOf relay.run

theorem Job.made_relayed : ∃ outcome, relay.run = .ok outcome ∧ outcome.table = relayed ∧
    (relayed.world.arena.classAt ⟨1⟩).bases = [⟨0⟩] ∧
    (relayed.world.arena.objectAt ⟨1⟩).overlay.keys = ["me"] ∧ relayed.world.arena.classes.size = 2 ∧
    relayed.world.arena.objects.size = 2 ∧ relayed.world.arena.functions.size = 3 ∧
    relayed.world.storedTypes.all Ty.isSimple = true ∧
    relayed.bindings.entries.all (·.2.type.isSimple) = true := by
  have hmade : (match relay.run with
      | .ok made =>
        let arena := made.table.world.arena
        decide ((arena.classAt ⟨1⟩).bases = [⟨0⟩] ∧ (arena.objectAt ⟨1⟩).overlay.keys = ["me"] ∧
          arena.classes.size = 2 ∧ arena.objects.size = 2 ∧ arena.functions.size = 3 ∧
          made.table.world.storedTypes.all Ty.isSimple = true ∧
          made.table.bindings.entries.all (·.2.type.isSimple) = true)
      | .error _ => false) = true := by
    decide +kernel
  cases hrun : relay.run with
  | ok made =>
    have htable : relayed = made.table := congrArg tableOf hrun
    rw [hrun] at hmade
    have hfacts := of_decide_eq_true hmade
    rw [htable]
    exact ⟨made, rfl, rfl, hfacts⟩
  | error =>
    rw [hrun] at hmade
    cases hmade

theorem Job.produced_relayed : relayed.Produced := by
  obtain ⟨outcome, hrun, htable, -⟩ := made_relayed
  rw [← htable]
  exact proper_relay.produced hrun

theorem Job.plain_relayed : relayed.Plain := by
  obtain ⟨-, -, -, -, -, -, -, -, hsimple, hbindings⟩ := made_relayed
  refine ⟨fun entry hentry e => ?_, fun _ hs => World.not_fixes_of_stores hsimple hs⟩
  exact Ty.not_fixes_of_isSimple (List.all_eq_true.1 hbindings entry hentry) e

/-- The types that are adopted lead to both classes, to the object and to the functions. -/
theorem SymbolTable.faithful_relayed :
    let ts : List Ty := [.classObj ⟨1⟩, .object ⟨1⟩, .function ⟨2⟩]
    Job.relayed.Produced ∧ (∀ t ∈ ts, t.Sound Job.relayed.world.Contains) ∧ Job.relayed.world.PlainFor ts ∧
      (Job.relayed.world.arena.classAt ⟨1⟩).bases = [⟨0⟩] ∧
      (Job.relayed.world.arena.objectAt ⟨1⟩).overlay.keys = ["me"] ∧
      ∃ us b, (ts.mapM (adopt (copier Job.relayed.world))).run { arena := {}, scopes := {} } = .ok (us, b) ∧
        Faithful Job.relayed.world ts us { arena := {}, scopes := {} } b := by
  obtain ⟨-, -, -, hbases, hme, hclasses, hobjects, hfunctions, hsimple, -⟩ := Job.made_relayed
  intro ts
  have hmem {t : Ty} (ht : t ∈ ts) : t = .classObj ⟨1⟩ ∨ t = .object ⟨1⟩ ∨ t = .function ⟨2⟩ := by
    simpa [ts] using ht
  have htypes : ∀ t ∈ ts, t.Sound Job.relayed.world.Contains := by
    intro t ht
    obtain rfl | rfl | rfl := hmem ht
    · exact .classObj (show 1 < Job.relayed.world.arena.classes.size from hclasses ▸ Nat.one_lt_two)
    · exact .object (show 1 < Job.relayed.world.arena.objects.size from hobjects ▸ Nat.one_lt_two)
    · exact .function (show 2 < Job.relayed.world.arena.functions.size from hfunctions ▸ Nat.lt_succ_self 2)
  have hplain : Job.relayed.world.PlainFor ts := by
    refine ⟨fun t ht e => Ty.not_fixes_of_isSimple ?_ e, fun _ hs => World.not_fixes_of_stores hsimple hs⟩
    obtain rfl | rfl | rfl := hmem ht <;> rfl
  refine ⟨Job.produced_relayed, htypes, hplain, hbases, hme, ?_⟩
  exact Job.produced_relayed.faithful htypes hplain {} {} Nat.one_pos

/-- An object whose class differs has no counterpart: what is popped from a list that was adopted with
its method is another object of the target. -/
theorem World.not_faithful_signature_with_object :
    let w : World :=
      { arena := { classes := #[{ name := some "C" }], objects := #[{ cls := ⟨0⟩ }] } }
    let target : Arena := { classes := #[{ name := some "M" }], objects := #[{ cls := ⟨0⟩ }] }
    ∃ pop, (Container.ofElts .list [.object ⟨0⟩]).member? "pop" = some pop ∧
      ∀ us b, ([pop].mapM (adopt (copier w))).run { arena := target, scopes := {} } = .ok (us, b) →
        ∀ R, List.Forall₂ (Ty.Corresponds R) [pop] us →
          ¬∀ e f, R e f → e ≠ .scope Scopes.global → w.Matches b.target R e f := by
  refine ⟨.builtin ⟨"pop", [.any], .object ⟨0⟩⟩, rfl, fun us b hrun R htypes hmatches => ?_⟩
  rw [List.mapM_cons, List.mapM_nil, Adoption.adopt.eq_def] at hrun
  cases hrun
  cases htypes with
  | cons htype _ =>
    cases htype with
    | builtin _ hret =>
      cases hret with
      | object hobject =>
        have hcls := hmatches _ _ (hmatches _ _ hobject nofun).cls nofun
        exact absurd hcls.1.name (by decide)

end Credence

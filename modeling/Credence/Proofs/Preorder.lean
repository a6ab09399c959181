import Credence.Proofs.Access
import Credence.Proofs.Ancestry
import Credence.Proofs.Subtype

namespace Credence

namespace Ty

/-- Types whose unions all have alternatives. -/
inductive Populated : Ty → Prop
  | leaf {t : Ty} (h : t.isLeaf = true) : Populated t
  | container {c : Container Ty} (elts : ∀ t ∈ c.elts, Populated t)
      (values : ∀ t ∈ c.values, Populated t) : Populated (.container c)
  | union {u : Union Ty} (ne : u.elts ≠ []) (elts : ∀ t ∈ u.elts, Populated t) :
      Populated (.union u)

/-- Types that say in all their parts what they are: no class, no union, nothing unknown and no empty
container. The classes of their objects are there. -/
inductive Concrete (a : Arena) : Ty → Prop
  | prim (p : Prim) : Concrete a (.prim p)
  | object {o : ObjectId} (h : (a.classOf o).val < a.classes.size) : Concrete a (.object o)
  | module (m : ModuleId) : Concrete a (.module m)
  | function (f : FunctionId) : Concrete a (.function f)
  | method (o : ObjectId) (f : FunctionId) : Concrete a (.method o f)
  | builtin (b : Builtin Ty) : Concrete a (.builtin b)
  | container {c : Container Ty} (elts : c.elts ≠ []) (values : c.kind = .dict → c.values ≠ [])
      (helts : ∀ t ∈ c.elts, Concrete a t) (hvalues : ∀ t ∈ c.values, Concrete a t) :
      Concrete a (.container c)

namespace Concrete

variable {a : Arena} {c : Container Ty} {t : Ty} (h : (Ty.container c).Concrete a)
include h

theorem elts_ne : c.elts ≠ [] := by
  cases h with
  | container elts _ _ _ => exact elts

theorem values_ne (hkind : c.kind = .dict) : c.values ≠ [] := by
  cases h with
  | container _ values _ _ => exact values hkind

theorem of_mem_elts (ht : t ∈ c.elts) : t.Concrete a := by
  cases h with
  | container _ _ helts _ => exact helts t ht

theorem of_mem_values (ht : t ∈ c.values) : t.Concrete a := by
  cases h with
  | container _ _ _ hvalues => exact hvalues t ht

end Concrete

end Ty

namespace Prim

theorem fits_refl (p : Prim) : p.fits p = true := by
  cases p <;> decide

theorem fits_iff {p q : Prim} :
    p.fits q = true ↔
      p = q ∨ (∃ i j, p.rank? = some i ∧ q.rank? = some j ∧ i ≤ j) ∨ p = .bytes ∧ q = .str := by
  cases p <;> cases q <;> simp [fits, rank?]

theorem fits_trans {p q r : Prim} (hpq : p.fits q = true) (hqr : q.fits r = true) :
    p.fits r = true := by
  rw [fits_iff] at *
  rcases hpq with rfl | ⟨i, j, hi, hj, hij⟩ | ⟨rfl, rfl⟩
  · exact hqr
  · rcases hqr with rfl | ⟨j', k, hj', hk, hjk⟩ | ⟨rfl, -⟩
    · exact .inr (.inl ⟨i, j, hi, hj, hij⟩)
    · cases hj.symm.trans hj'
      exact .inr (.inl ⟨i, k, hi, hk, Nat.le_trans hij hjk⟩)
    · cases hj
  · rcases hqr with rfl | ⟨j', k, hj', -, -⟩ | ⟨hq, -⟩
    · exact .inr (.inr ⟨rfl, rfl⟩)
    · cases hj'
    · cases hq

end Prim

namespace Arena

variable {a : Arena} {r s t : Ty}

theorem isSubtype_of_within_left (h : r.Within s) (hr : a.isSubtype r t = true) :
    a.isSubtype s t = true := by
  induction h with
  | self => exact hr
  | union hs _ ih => exact isSubtype_union_left.2 (.inr ⟨_, hs, ih⟩)

theorem isSubtype_of_within_right (hs : s.isUnion = false) (h : r.Within t)
    (hr : a.isSubtype s r = true) : a.isSubtype s t = true := by
  induction h with
  | self => exact hr
  | union ht _ ih => exact (isSubtype_union_right hs).2 (.inr ⟨_, ht, ih⟩)

theorem isSubtype_self_of_within (hs : s.isUnion = false) (h : s.Within t)
    (hself : a.isSubtype s s = true) : a.isSubtype t t = true :=
  isSubtype_of_within_left h (isSubtype_of_within_right hs h hself)

theorem isSubtype_leaf_self (h : t.isLeaf = true) : a.isSubtype t t = true := by
  cases t with
  | container | union => cases h
  | _ => simp [isSubtype, Ty.isUnknown, Ty.isFunctionLike, Prim.fits_refl, isSubclass_refl]

theorem Contained.refl {xs : List Ty} (h : ∀ x ∈ xs, a.isSubtype x x = true) :
    a.Contained xs xs :=
  .inr (.inr fun x hx => ⟨x, hx, h x hx⟩)

theorem isSubtype_container_self {c : Container Ty} (helts : ∀ t ∈ c.elts, a.isSubtype t t = true)
    (hvalues : ∀ t ∈ c.values, a.isSubtype t t = true) :
    a.isSubtype (.container c) (.container c) = true := by
  cases hkind : c.kind with
  | tuple => exact (isSubtype_tuple hkind).2 ⟨rfl, .inr (.inr (List.forall₂_same.2 helts))⟩
  | list => exact (isSubtype_bag (.inl hkind)).2 ⟨rfl, .refl helts⟩
  | set => exact (isSubtype_bag (.inr hkind)).2 ⟨rfl, .refl helts⟩
  | dict => exact (isSubtype_dict hkind).2 ⟨rfl, .refl helts, .refl hvalues⟩

theorem exists_within_of_populated (a : Arena) (h : t.Populated) :
    ∃ s, s.Within t ∧ s.isUnion = false ∧ a.isSubtype s s = true := by
  induction h with
  | leaf h => exact ⟨_, .self, Ty.isUnion_leaf h, isSubtype_leaf_self h⟩
  | container _ _ helts hvalues =>
    have hself (t : Ty) (ht : ∃ s, s.Within t ∧ s.isUnion = false ∧ a.isSubtype s s = true) :
        a.isSubtype t t = true := by
      obtain ⟨s, hst, hs, hself⟩ := ht
      exact isSubtype_self_of_within hs hst hself
    exact ⟨_, .self, rfl, isSubtype_container_self (fun t ht => hself t (helts t ht))
      fun t ht => hself t (hvalues t ht)⟩
  | union ne _ ih =>
    obtain ⟨t, ht⟩ := List.exists_mem_of_ne_nil _ ne
    obtain ⟨s, hst, hs⟩ := ih t ht
    exact ⟨s, .union ht hst, hs⟩

theorem isSubtype_self (a : Arena) (h : t.Populated) : a.isSubtype t t = true := by
  obtain ⟨s, hst, hs, hself⟩ := exists_within_of_populated a h
  exact isSubtype_self_of_within hs hst hself

section Concrete

variable {c : Container Ty} (hs : s.Concrete a)
include hs

theorem isSubtype_prim_iff {p : Prim} :
    a.isSubtype (.prim p) s = true ↔ ∃ q, s = .prim q ∧ p.fits q = true := by
  cases hs <;> simp [isSubtype, Ty.isUnknown, Ty.isFunctionLike]

theorem isSubtype_object_iff {o : ObjectId} :
    a.isSubtype (.object o) s = true ↔
      ∃ o', s = .object o' ∧ a.isSubclass (a.classOf o) (a.classOf o') = true := by
  cases hs <;> simp [isSubtype, Ty.isUnknown, Ty.isFunctionLike]

theorem isSubtype_module_iff {m : ModuleId} : a.isSubtype (.module m) s = true ↔ .module m = s := by
  cases hs <;> simp [isSubtype, Ty.isUnknown, Ty.isFunctionLike]

theorem isSubtype_function_iff (hr : r.isFunctionLike = true) :
    a.isSubtype r s = true ↔ s.isFunctionLike = true := by
  cases r with
  | function | method | builtin => cases hs <;> simp [isSubtype, Ty.isUnknown, Ty.isFunctionLike]
  | _ => cases hr

theorem exists_of_isSubtype_container (h : a.isSubtype (.container c) s = true) :
    ∃ d, s = .container d := by
  cases hs with
  | container => exact ⟨_, rfl⟩
  | _ => simp [isSubtype, Ty.isUnknown, Ty.isFunctionLike] at h

end Concrete

theorem Contained.trans {xs ys zs : List Ty} (hxy : a.Contained xs ys) (hyz : a.Contained ys zs)
    (hxs : xs ≠ []) (hys : ys ≠ []) (hzs : zs ≠ [])
    (h : ∀ x ∈ xs, ∀ y ∈ ys, ∀ z ∈ zs, a.isSubtype x y = true → a.isSubtype y z = true →
      a.isSubtype x z = true) : a.Contained xs zs := by
  have hxy := (hxy.resolve_left hxs).resolve_left hys
  have hyz := (hyz.resolve_left hys).resolve_left hzs
  refine .inr (.inr fun x hx => ?_)
  obtain ⟨y, hy, hsub⟩ := hxy x hx
  obtain ⟨z, hz, hsub'⟩ := hyz y hy
  exact ⟨z, hz, h x hx y hy z hz hsub hsub'⟩

theorem forall₂_isSubtype_trans {xs ys zs : List Ty}
    (hxy : List.Forall₂ (fun x y => a.isSubtype x y = true) xs ys)
    (hyz : List.Forall₂ (fun x y => a.isSubtype x y = true) ys zs)
    (h : ∀ x ∈ xs, ∀ y ∈ ys, ∀ z ∈ zs, a.isSubtype x y = true → a.isSubtype y z = true →
      a.isSubtype x z = true) : List.Forall₂ (fun x y => a.isSubtype x y = true) xs zs := by
  induction hxy generalizing zs with
  | nil => exact hyz
  | cons hsub _ ih =>
    cases hyz with
    | cons hsub' hyz =>
      refine .cons (h _ (by simp) _ (by simp) _ (by simp) hsub hsub') (ih hyz ?_)
      exact fun x hx y hy z hz => h x (by simp [hx]) y (by simp [hy]) z (by simp [hz])

theorem isSubtype_container_trans {c d e : Container Ty} (hc : (Ty.container c).Concrete a)
    (hd : (Ty.container d).Concrete a) (he : (Ty.container e).Concrete a)
    (hcd : a.isSubtype (.container c) (.container d) = true)
    (hde : a.isSubtype (.container d) (.container e) = true)
    (helts : ∀ x ∈ c.elts, ∀ y ∈ d.elts, ∀ z ∈ e.elts, a.isSubtype x y = true →
      a.isSubtype y z = true → a.isSubtype x z = true)
    (hvalues : ∀ x ∈ c.values, ∀ y ∈ d.values, ∀ z ∈ e.values, a.isSubtype x y = true →
      a.isSubtype y z = true → a.isSubtype x z = true) :
    a.isSubtype (.container c) (.container e) = true := by
  have hkind := kind_of_isSubtype hcd
  have hkind' := kind_of_isSubtype hde
  have hkinds := hkind.trans hkind'
  have hbag (hk : c.kind = .list ∨ c.kind = .set) :
      a.isSubtype (.container c) (.container e) = true := by
    have hxy := ((isSubtype_bag hk).1 hcd).2
    have hyz := ((isSubtype_bag (hkind ▸ hk)).1 hde).2
    exact (isSubtype_bag hk).2 ⟨hkinds, hxy.trans hyz hc.elts_ne hd.elts_ne he.elts_ne helts⟩
  cases hk : c.kind with
  | list => exact hbag (.inl hk)
  | set => exact hbag (.inr hk)
  | tuple =>
    have hxy := (((isSubtype_tuple hk).1 hcd).2.resolve_left hc.elts_ne).resolve_left hd.elts_ne
    have hyz := (((isSubtype_tuple (hkind ▸ hk)).1 hde).2.resolve_left hd.elts_ne).resolve_left
      he.elts_ne
    exact (isSubtype_tuple hk).2 ⟨hkinds, .inr (.inr (forall₂_isSubtype_trans hxy hyz helts))⟩
  | dict =>
    have hk' : d.kind = .dict := hkind ▸ hk
    obtain ⟨hkeys, hvals⟩ := ((isSubtype_dict hk).1 hcd).2
    obtain ⟨hkeys', hvals'⟩ := ((isSubtype_dict hk').1 hde).2
    have hvals := hvals.trans hvals' (hc.values_ne hk) (hd.values_ne hk')
      (he.values_ne (hkinds ▸ hk)) hvalues
    exact (isSubtype_dict hk).2 ⟨hkinds,
      hkeys.trans hkeys' hc.elts_ne hd.elts_ne he.elts_ne helts, hvals⟩

theorem isSubtype_functionLike_trans (hs : s.Concrete a) (ht : t.Concrete a)
    (hr : r.isFunctionLike = true) (hrs : a.isSubtype r s = true) (hst : a.isSubtype s t = true) :
    a.isSubtype r t = true := by
  have hs' := (isSubtype_function_iff hs hr).1 hrs
  exact (isSubtype_function_iff ht hr).2 ((isSubtype_function_iff ht hs').1 hst)

theorem isSubtype_trans (hnames : a.NamesApart) (hr : r.Concrete a) (hs : s.Concrete a)
    (ht : t.Concrete a) (hrs : a.isSubtype r s = true) (hst : a.isSubtype s t = true) :
    a.isSubtype r t = true := by
  induction hr generalizing s t with
  | prim p =>
    obtain ⟨q, rfl, hpq⟩ := (isSubtype_prim_iff hs).1 hrs
    obtain ⟨q', rfl, hqq⟩ := (isSubtype_prim_iff ht).1 hst
    exact (isSubtype_prim_iff ht).2 ⟨q', rfl, Prim.fits_trans hpq hqq⟩
  | @object o ho =>
    obtain ⟨o', rfl, hoo⟩ := (isSubtype_object_iff hs).1 hrs
    obtain ⟨o'', rfl, hoo'⟩ := (isSubtype_object_iff ht).1 hst
    cases hs with
    | object ho' =>
    cases ht with
    | object ho'' =>
      exact (isSubtype_object_iff (.object ho'')).2
        ⟨o'', rfl, hnames.isSubclass_trans ho ho' ho'' hoo hoo'⟩
  | module m =>
    cases (isSubtype_module_iff hs).1 hrs
    exact hst
  | function | method | builtin => exact isSubtype_functionLike_trans hs ht rfl hrs hst
  | @container c elts values hc hv helts hvalues =>
    obtain ⟨d, rfl⟩ := exists_of_isSubtype_container hs hrs
    obtain ⟨e, rfl⟩ := exists_of_isSubtype_container ht hst
    exact isSubtype_container_trans (.container elts values hc hv) hs ht hrs hst
      (fun x hx y hy z hz => helts x hx (hs.of_mem_elts hy) (ht.of_mem_elts hz))
      fun x hx y hy z hz => hvalues x hx (hs.of_mem_values hy) (ht.of_mem_values hz)

/-- Each type whose unions have alternatives stands for itself. Where classes have different names,
concrete types stand for all that the types they stand for do. -/
theorem isSubtype_preorder (a : Arena) :
    (∀ t : Ty, t.Populated → a.isSubtype t t = true) ∧
      (a.NamesApart → ∀ r s t : Ty, r.Concrete a → s.Concrete a → t.Concrete a →
        a.isSubtype r s = true → a.isSubtype s t = true → a.isSubtype r t = true) := by
  constructor
  · intro t ht
    exact isSubtype_self a ht
  · intro hnames r s t hr hs ht hrs hst
    exact isSubtype_trans hnames hr hs ht hrs hst

/-- Three classes, each derived from the one before it, with an object of each. -/
def chain : Arena where
  classes := #[{ name := some "A" }, { name := some "B", bases := [⟨0⟩] },
    { name := some "C", bases := [⟨1⟩] }]
  objects := #[{ cls := ⟨0⟩ }, { cls := ⟨1⟩ }, { cls := ⟨2⟩ }]

theorem namesApart_chain : chain.NamesApart where
  names c d hc hd h := by
    have hall : ∀ i j : Fin 3, chain.className ⟨i⟩ = chain.className ⟨j⟩ → i = j := by decide
    exact congrArg (fun i : Fin 3 => ClassId.mk i) (hall ⟨c.val, hc⟩ ⟨d.val, hd⟩ h)
  bases := forall_bases_of_lt (by decide)

theorem isSubtype_listOf_chain (o o' : ObjectId)
    (h : chain.classOf o' ∈ (chain.classAt (chain.classOf o)).bases) :
    chain.isSubtype (.listOf [.object o]) (.listOf [.object o']) = true := by
  have hobject : chain.isSubtype (.object o) (.object o') = true := by
    rw [isSubtype]
    exact isSubclass_iff.2 ⟨_, .single h, rfl⟩
  refine (isSubtype_bag (.inl rfl)).2 ⟨rfl, .inr (.inr fun t ht => ?_)⟩
  exact ⟨.object o', List.mem_singleton_self _, List.mem_singleton.1 ht ▸ hobject⟩

theorem concrete_listOf_chain {o : ObjectId} (h : (chain.classOf o).val < 3) :
    (Ty.listOf [.object o]).Concrete chain := by
  refine .container (List.cons_ne_nil _ _) (fun hk => nomatch hk) ?_ fun _ h => nomatch h
  intro t ht
  exact List.mem_singleton.1 ht ▸ .object h

/-- A dict to a union stands for itself, and lists of objects stand for each other along the chain. -/
theorem isSubtype_preorder_chain :
    (∃ t, t = Ty.dictOf [.str] [.union ⟨[.int, .object ⟨2⟩], []⟩] ∧ t.Populated ∧
        chain.isSubtype t t = true) ∧
      chain.NamesApart ∧
      chain.isSubtype (.listOf [.object ⟨2⟩]) (.listOf [.object ⟨1⟩]) = true ∧
      chain.isSubtype (.listOf [.object ⟨1⟩]) (.listOf [.object ⟨0⟩]) = true ∧
      chain.isSubtype (.listOf [.object ⟨2⟩]) (.listOf [.object ⟨0⟩]) = true := by
  have hleaf : ∀ t ∈ [Ty.int, .object ⟨2⟩], t.Populated :=
    List.forall_mem_cons.2 ⟨.leaf rfl, List.forall_mem_singleton.2 (.leaf rfl)⟩
  have hdict : (Ty.dictOf [.str] [.union ⟨[.int, .object ⟨2⟩], []⟩]).Populated :=
    .container (List.forall_mem_singleton.2 (.leaf rfl))
      (List.forall_mem_singleton.2 (.union (List.cons_ne_nil _ _) hleaf))
  have hup := isSubtype_listOf_chain ⟨2⟩ ⟨1⟩ (by decide)
  have hup' := isSubtype_listOf_chain ⟨1⟩ ⟨0⟩ (by decide)
  refine ⟨⟨_, rfl, hdict, (isSubtype_preorder chain).1 _ hdict⟩, namesApart_chain, hup, hup', ?_⟩
  exact (isSubtype_preorder chain).2 namesApart_chain _ _ _ (concrete_listOf_chain (by decide))
    (concrete_listOf_chain (by decide)) (concrete_listOf_chain (by decide)) hup hup'

end Arena

end Credence

import Credence.Proofs.WellFormed

namespace Credence

namespace Ty

variable {signatures : Bool} {t : Ty} {ts us : List Ty}

theorem WellFormed.unrepeated (h : WellFormed signatures t) : t.Unrepeated := by
  induction h with
  | leaf h _ => exact .leaf h
  | builtin _ _ => exact .leaf rfl
  | container formed _ _ elts values => exact .container formed.distinct elts values
  | union formed _ elts => exact .union formed.distinct elts

/-- No two members of a list are alike, whichever is compared with the other. -/
def Unlike (ts : List Ty) : Prop :=
  ts.Pairwise fun a b => a.alike b = false ∧ b.alike a = false

theorem Unlike.distinct (h : Unlike ts) : Distinct ts :=
  h.imp fun hab => hab.1

theorem Distinct.unlike (h : Distinct ts) (hts : ∀ t ∈ ts, t.Unrepeated) : Unlike ts := by
  refine h.imp_of_mem fun {a b} ha hb hab => ⟨hab, Bool.eq_false_iff.2 fun hba => ?_⟩
  have hback := (hts b hb).alike_symm (hts a ha) hba
  rw [hab] at hback
  cases hback

theorem among_mono (h : t.among ts = true) (hfront : ts <+: us) : t.among us = true := by
  obtain ⟨s, hs, hst⟩ := List.any_eq_true.1 h
  exact List.any_eq_true.2 ⟨s, hfront.subset hs, hst⟩

end Ty

namespace Container

variable {c d : Container Ty}

theorem prefix_elts_push (c : Container Ty) (t : Ty) : c.elts <+: (c.push t).elts := by
  obtain hsame | ⟨-, hmore⟩ := c.pushWith_cases t none 1.0
  · simp [push, hsame]
  · rw [push, hmore]
    exact List.prefix_append _ _

theorem among_elts_push (hkind : c.kind = .list ∨ c.kind = .set) {t : Ty} (ht : t.isUndefined = false) :
    t.among (c.push t).elts = true := by
  cases hamong : t.among c.elts with
  | true => exact Ty.among_mono hamong (c.prefix_elts_push t)
  | false =>
    have hmore : (c.push t).elts = c.elts ++ [t] := by
      rcases hkind with hkind | hkind <;> simp [push, pushWith, ht, hkind, hamong]
    rw [hmore]
    exact List.any_eq_true.2 ⟨t, List.mem_append_right _ List.mem_cons_self, Ty.alike_refl t⟩

theorem Weighted.foldl_push (h : c.Weighted) (ts : List Ty) :
    (ts.foldl (fun c t => c.push t) c).Weighted :=
  List.foldlRecOn ts _ h fun _ h t _ => h.pushWith t none 1.0

theorem prefix_elts_foldl_push (c : Container Ty) (ts : List Ty) :
    c.elts <+: (ts.foldl (fun c t => c.push t) c).elts := by
  refine List.foldlRecOn ts _ (motive := fun d : Container Ty => c.elts <+: d.elts) (List.prefix_refl _) ?_
  intro d h t _
  exact h.trans (d.prefix_elts_push t)

theorem among_elts_foldl_push (hkind : c.kind = .list ∨ c.kind = .set) {ts : List Ty}
    (hts : ∀ t ∈ ts, t.isUndefined = false) :
    ∀ t ∈ ts, t.among (ts.foldl (fun c t => c.push t) c).elts = true := by
  induction ts generalizing c with
  | nil => exact fun _ ht => absurd ht List.not_mem_nil
  | cons s ts ih =>
    obtain ⟨hs, hts⟩ := List.forall_mem_cons.1 hts
    refine List.forall_mem_cons.2 ⟨?_, ih (c.kind_push s ▸ hkind) hts⟩
    exact Ty.among_mono (among_elts_push hkind hs) (prefix_elts_foldl_push _ ts)

def opened (c : Container Ty) : Container Ty :=
  if c.kind = .tuple then { c with kind := .list } else c

theorem elts_opened (c : Container Ty) : c.opened.elts = c.elts := by
  unfold opened
  split <;> rfl

theorem kind_opened_of_tuple (hc : c.kind = .tuple) : c.opened.kind = .list := by
  rw [opened, if_pos hc]

theorem kind_opened (hc : c.kind ≠ .dict) : c.opened.kind = .list ∨ c.opened.kind = .set := by
  unfold opened
  cases hkind : c.kind with
  | dict => exact absurd hkind hc
  | tuple => exact .inl rfl
  | list => exact .inl hkind
  | set => exact .inr hkind

theorem Weighted.opened (h : c.Weighted) : c.opened.Weighted := by
  unfold Container.opened
  split
  · exact ⟨h.isUndefined, h.probs⟩
  · exact h

theorem Formed.asList (h : c.Formed) (hc : c.kind = .tuple) (hdistinct : Ty.Distinct c.elts) :
    Formed { c with kind := .list } where
  distinct := ⟨fun _ => hdistinct, nofun, nofun⟩
  isUndefined := h.isUndefined
  values _ := h.values (by simp [hc])
  probs := h.probs

section OtherKind

variable (hkind : c.kind ≠ d.kind)
include hkind

theorem extended_of_dict (hc : c.kind = .dict) : c.extended d = c := by
  have hd : d.kind ≠ .dict := fun hd => hkind (hc.trans hd.symm)
  simp [extended, hc, hd]

theorem extended_of_not_dict (hc : c.kind ≠ .dict) :
    c.extended d = d.elts.foldl (fun c t => c.push t) c.opened := by
  have hopened :
      (if c.kind == .tuple && d.kind != .tuple then { c with kind := .list } else c) = c.opened := by
    cases hctuple : c.kind with
    | tuple =>
      have hd : d.kind ≠ .tuple := fun hd => hkind (hctuple.trans hd.symm)
      simp [opened, hctuple, hd]
    | _ => simp [opened, hctuple]
  rw [extended, if_neg (by simpa using hc)]
  exact congrArg (fun start => d.elts.foldl (fun c t => c.push t) start) hopened

theorem Weighted.extended (h : c.Weighted) : (c.extended d).Weighted := by
  by_cases hc : c.kind = .dict
  · rw [extended_of_dict hkind hc]
    exact h
  · rw [extended_of_not_dict hkind hc]
    exact h.opened.foldl_push d.elts

theorem prefix_elts_extended : c.elts <+: (c.extended d).elts := by
  by_cases hc : c.kind = .dict
  · simp [extended_of_dict hkind hc]
  · rw [extended_of_not_dict hkind hc, ← elts_opened c]
    exact prefix_elts_foldl_push _ _

theorem kind_extended_of_tuple (hc : c.kind = .tuple) : (c.extended d).kind = .list := by
  rw [extended_of_not_dict hkind (by simp [hc]), kind_foldl_push, kind_opened_of_tuple hc]

theorem among_elts_extended (hc : c.kind ≠ .dict) (hd : ∀ t ∈ d.elts, t.isUndefined = false) :
    ∀ t ∈ d.elts, t.among (c.extended d).elts = true := by
  rw [extended_of_not_dict hkind hc]
  exact among_elts_foldl_push (kind_opened hc) hd

end OtherKind

/-- A container that takes in one of another kind keeps its own elements in front and, unless it is a dict,
has all elements of the other one. Each element is defined and has a probability. No two elements of a list
or a set are alike, and the whole is well-formed, just if it was no tuple with a type at two positions. -/
theorem wellFormed_extended_iff {signatures : Bool} (hc : Ty.WellFormed signatures (.container c))
    (hd : Ty.WellFormed signatures (.container d)) (hkind : c.kind ≠ d.kind) :
    c.elts <+: (c.extended d).elts ∧
      (c.kind ≠ .dict → ∀ t ∈ d.elts, t.among (c.extended d).elts = true) ∧
      (∀ t ∈ (c.extended d).elts, t.isUndefined = false) ∧
      (c.extended d).probs.length = (c.extended d).elts.length ∧
      (((c.extended d).kind = .list ∨ (c.extended d).kind = .set → Ty.Unlike (c.extended d).elts) ↔
        (c.kind = .tuple → Ty.Unlike c.elts)) ∧
      (Ty.WellFormed signatures (.container (c.extended d)) ↔ (c.kind = .tuple → Ty.Unlike c.elts)) := by
  have hweighted := hc.formed.weighted.extended hkind
  have hformed (hunlike : c.kind = .tuple → Ty.Unlike c.elts) :
      Ty.WellFormed signatures (.container (c.extended d)) := by
    refine Ty.WellFormed.stable.extendedFrom hc hd fun htuple _ => ?_
    exact .container (hc.formed.asList htuple (hunlike htuple).distinct) hc.elts hc.values
  have hunlike (h : Ty.WellFormed signatures (.container (c.extended d)))
      (hbag : (c.extended d).kind = .list ∨ (c.extended d).kind = .set) :
      Ty.Unlike (c.extended d).elts :=
    (h.formed.distinct.elts hbag).unlike fun t ht => (h.elts t ht).unrepeated
  -- the list keeps what was at the positions of the tuple
  have hback
      (h : (c.extended d).kind = .list ∨ (c.extended d).kind = .set → Ty.Unlike (c.extended d).elts)
      (htuple : c.kind = .tuple) : Ty.Unlike c.elts :=
    (h (.inl (kind_extended_of_tuple hkind htuple))).sublist (prefix_elts_extended hkind).sublist
  exact ⟨prefix_elts_extended hkind,
    fun hdict => among_elts_extended hkind hdict hd.formed.isUndefined,
    hweighted.isUndefined, hweighted.probs, ⟨hback, fun h => hunlike (hformed h)⟩,
    ⟨fun h => hback (hunlike h), hformed⟩⟩

theorem kind_ofElts (kind : ContainerKind) (elts : List Ty) : (ofElts kind elts).kind = kind :=
  kind_foldl_push { kind } elts

theorem wellFormed_prims (kind : ContainerKind) (ps : List Prim) :
    Ty.WellFormed true (.container (.ofElts kind (ps.map .prim))) :=
  Ty.WellFormed.stable.ofElts kind (List.forall_mem_map.2 fun p _ => Ty.WellFormed.stable.prim p)

/-- A pair of a number and a text takes in a set of texts, and is a list of both then. -/
theorem wellFormed_extended_pair :
    Ty.WellFormed true (.container (ofElts .tuple [.int, .str])) ∧
      Ty.WellFormed true (.container (ofElts .set [.str])) ∧
      (ofElts .tuple [.int, .str]).kind ≠ (ofElts .set [.str]).kind ∧
      Ty.WellFormed true (.container ((ofElts .tuple [.int, .str]).extended (ofElts .set [.str]))) := by
  have hpair : Ty.WellFormed true (.container (ofElts .tuple [.int, .str])) :=
    wellFormed_prims .tuple [.int, .str]
  have hset : Ty.WellFormed true (.container (ofElts .set [.str])) := wellFormed_prims .set [.str]
  have hkind : (ofElts .tuple [.int, .str]).kind ≠ (ofElts .set [.str]).kind := by
    simp [kind_ofElts]
  obtain ⟨-, -, -, -, -, hiff⟩ := wellFormed_extended_iff hpair hset hkind
  refine ⟨hpair, hset, hkind, hiff.2 fun _ => ?_⟩
  simp [ofElts, push, pushWith, Ty.isUndefined, Ty.Unlike, Ty.alike]

def twins : Container Ty := ofElts .tuple [.int, .int]

def texts : Container Ty := ofElts .list [.str]

theorem extended_twins : twins.extended texts =
    { kind := .list, elts := [.int, .int, .str], probs := [1.0, 1.0, 1.0] } := by
  simp [twins, texts, extended, ofElts, push, pushWith, Ty.isUndefined, Ty.among, Ty.alike]

/-- The pair that takes in the list is a list with the type of numbers twice. -/
theorem not_wellFormed_extended_twins :
    Ty.WellFormed true (.container twins) ∧ Ty.WellFormed true (.container texts) ∧
      twins.kind ≠ texts.kind ∧ (twins.extended texts).kind = .list ∧
      ¬Ty.Unlike (twins.extended texts).elts ∧
      ¬Ty.WellFormed true (.container (twins.extended texts)) := by
  have hkind : (twins.extended texts).kind = .list := by rw [extended_twins]
  have hnot : ¬Ty.Unlike (twins.extended texts).elts := by
    rw [extended_twins]
    simp [Ty.Unlike, Ty.alike]
  refine ⟨wellFormed_prims .tuple [.int, .int], wellFormed_prims .list [.str], ?_, hkind, hnot,
    fun h => hnot ?_⟩
  · simp [twins, texts, kind_ofElts]
  · exact (h.formed.distinct.elts (.inl hkind)).unlike fun t ht => (h.elts t ht).unrepeated

end Container

end Credence

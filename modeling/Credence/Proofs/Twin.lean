import Credence.Proofs.Closed
import Credence.Proofs.Standing

namespace Credence

/-- Where the check of a body starts: in which scope, in which generation of bindings, and in which arena. -/
structure Origin where
  base : Nat
  generation : Nat
  arena : Arena

/-- Two checks of one body, which reads some names and changes some of those. -/
structure Pairing where
  reads : String → Prop
  own : String → Prop
  readsOwn : ∀ x, own x → reads x
  left : Origin
  right : Origin

namespace Pairing

variable {P : Pairing} {spine rest : List Nat} {d e : Nat} {s t : Scopes} {x : String} {b : Binding}

/-- Two runs stand in the same line of scopes, with the same bindings there. From the bases on the names that
are read lead to the same types, which name no entries; those that are changed lead to the base or nowhere. -/
structure Joint (P : Pairing) (spine : List Nat) (s t : Scopes) : Prop where
  left : s.Stands P.left.base spine
  right : t.Stands P.right.base spine
  size : s.all.size + P.right.base = t.all.size + P.left.base
  generation : s.generation + P.right.generation = t.generation + P.left.generation
  inner : ∀ d ∈ spine, (s.scopeAt ⟨P.left.base + d⟩).bindings = (t.scopeAt ⟨P.right.base + d⟩).bindings
  closed : ∀ d ∈ spine, (s.scopeAt ⟨P.left.base + d⟩).bindings.All fun b => b.type.Closed
  changed : ∀ d ∈ spine, ∀ entry ∈ (s.scopeAt ⟨P.left.base + d⟩).bindings.entries,
    entry.2.narrowed = false → P.own entry.1
  reads : ∀ x, P.reads x → (s.lookupFrom ⟨P.left.base⟩ x).map (·.type) = (t.lookupFrom ⟨P.right.base⟩ x).map (·.type)
  readClosed : ∀ x, P.reads x → ∀ b ∈ s.lookupFrom ⟨P.left.base⟩ x, b.type.Closed
  own : ∀ x, P.own x →
    (s.scopeAt ⟨P.left.base⟩).bindings.get? x = (t.scopeAt ⟨P.right.base⟩).bindings.get? x
  ownLeft : ∀ x, P.own x → s.lookupFrom ⟨P.left.base⟩ x = (s.scopeAt ⟨P.left.base⟩).bindings.get? x
  ownRight : ∀ x, P.own x → t.lookupFrom ⟨P.right.base⟩ x = (t.scopeAt ⟨P.right.base⟩).bindings.get? x

namespace Joint

theorem of_all {s' t' : Scopes} (h : P.Joint spine s t) (hs : s'.all = s.all) (ht : t'.all = t.all)
    (hrest : ∀ d ∈ rest, d ∈ spine) (left : s'.Stands P.left.base rest) (right : t'.Stands P.right.base rest)
    (generation : s'.generation + P.right.generation = t'.generation + P.left.generation) :
    P.Joint rest s' t' := by
  have hsat := Scopes.scopeAt_of_all hs
  have htat := Scopes.scopeAt_of_all ht
  have hsfrom := Scopes.lookupFrom_of_all hs
  have htfrom := Scopes.lookupFrom_of_all ht
  refine ⟨left, right, hs ▸ ht ▸ h.size, generation, fun d hd => ?_, fun d hd => ?_, fun d hd => ?_, fun x hx => ?_,
    fun x hx => ?_, fun x hx => ?_, fun x hx => ?_, fun x hx => ?_⟩
  · rw [hsat, htat, h.inner d (hrest d hd)]
  · rw [hsat]
    exact h.closed d (hrest d hd)
  · rw [hsat]
    exact h.changed d (hrest d hd)
  · rw [hsfrom, htfrom, h.reads x hx]
  · rw [hsfrom]
    exact h.readClosed x hx
  · rw [hsat, htat, h.own x hx]
  · rw [hsfrom, hsat, h.ownLeft x hx]
  · rw [htfrom, htat, h.ownRight x hx]

theorem touch (h : P.Joint spine s t) : P.Joint spine s.touch t.touch := by
  refine h.of_all rfl rfl (fun _ hd => hd) h.left.touch h.right.touch ?_
  have := h.generation
  change s.generation + 1 + _ = t.generation + 1 + _
  omega

theorem outer (h : P.Joint (d :: rest) s t) :
    P.Joint rest { s with current := ⟨P.left.base + rest.headD 0⟩ }
      { t with current := ⟨P.right.base + rest.headD 0⟩ } := by
  refine h.of_all rfl rfl (fun e he => ?_) h.left.outer h.right.outer h.generation
  exact List.mem_cons_of_mem d he

theorem here (h : P.Joint (d :: rest) s t) : s.here.bindings = t.here.bindings := by
  have hinner := h.inner d List.mem_cons_self
  rw [Scopes.here, Scopes.here, h.left.current, h.right.current]
  exact hinner

theorem here_closed (h : P.Joint (d :: rest) s t) : s.here.bindings.All fun b => b.type.Closed := by
  have hclosed := h.closed d List.mem_cons_self
  rw [Scopes.here, h.left.current]
  exact hclosed

theorem lookupFrom_current (h : P.Joint spine s t) (hx : P.reads x) :
    (s.lookupFrom s.current x).map (·.type) = (t.lookupFrom t.current x).map (·.type) ∧
      ∀ b ∈ s.lookupFrom s.current x, b.type.Closed := by
  induction spine generalizing s t with
  | nil =>
    rw [h.left.current, h.right.current]
    exact ⟨h.reads x hx, h.readClosed x hx⟩
  | cons d rest ih =>
    rw [h.left.lookupFrom_outer, h.right.lookupFrom_outer, ← h.here]
    cases hget : s.here.bindings.get? x with
    | none => exact ih h.outer
    | some b => exact ⟨rfl, fun _ hb => Option.mem_some.1 hb ▸ h.here_closed.of_get? hget⟩

theorem lookup (h : P.Joint spine s t) (hx : P.reads x) :
    (s.lookup x).map (·.type) = (t.lookup x).map (·.type) ∧ ∀ b ∈ s.lookup x, b.type.Closed := by
  rw [h.left.lookup, h.right.lookup]
  exact h.lookupFrom_current hx

theorem find (h : P.Joint spine s t) (hx : P.reads x) : s.find x = t.find x ∧ (s.find x).Closed := by
  obtain ⟨hsame, hclosed⟩ := h.lookup hx
  unfold Scopes.find
  rw [← hsame]
  refine ⟨rfl, ?_⟩
  cases hb : s.lookup x with
  | none => exact .any
  | some b => exact hclosed b hb

theorem get?_here (h : P.Joint spine s t) (hx : P.own x) : s.here.bindings.get? x = t.here.bindings.get? x := by
  cases spine with
  | nil =>
    rw [Scopes.here, Scopes.here, h.left.current, h.right.current]
    exact h.own x hx
  | cons d rest => rw [h.here]

theorem defining? (h : P.Joint spine s t) (hx : P.own x) :
    (s.defining? x = none ∧ t.defining? x = none) ∨
      ∃ e ∈ 0 :: spine, s.defining? x = some ⟨P.left.base + e⟩ ∧ t.defining? x = some ⟨P.right.base + e⟩ ∧
        (s.scopeAt ⟨P.left.base + e⟩).bindings.get? x = (t.scopeAt ⟨P.right.base + e⟩).bindings.get? x := by
  induction spine generalizing s t with
  | nil =>
    have hown := h.own x hx
    unfold Scopes.defining?
    rw [h.left.current, h.right.current]
    by_cases hbound : (s.scopeAt ⟨P.left.base⟩).bindings.contains x = true
    · refine .inr ⟨0, List.mem_cons_self, ?_, ?_, hown⟩
      · rw [h.left.formed.find?_chain]
        exact if_pos hbound
      · rw [Table.contains, hown] at hbound
        rw [h.right.formed.find?_chain]
        exact if_pos hbound
    · have hnone : (s.scopeAt ⟨P.left.base⟩).bindings.get? x = none := by
        simpa [Table.contains] using hbound
      refine .inl ⟨Scopes.find?_chain_of_lookupFrom ?_, Scopes.find?_chain_of_lookupFrom ?_⟩
      · exact (h.ownLeft x hx).trans hnone
      · exact (h.ownRight x hx).trans (hown.symm.trans hnone)
  | cons d rest ih =>
    rw [h.left.defining?_outer, h.right.defining?_outer, ← h.here]
    cases s.here.bindings.contains x with
    | true =>
      refine .inr ⟨d, by simp, ?_, ?_, congrArg (Table.get? · x) (h.inner d List.mem_cons_self)⟩
      · exact congrArg some h.left.current
      · exact congrArg some h.right.current
    | false =>
      rcases ih h.outer with hnone | ⟨e, he, hsome⟩
      · exact .inl hnone
      · refine .inr ⟨e, ?_, hsome⟩
        rcases List.mem_cons.1 he with rfl | he
        · exact List.mem_cons_self
        · exact List.mem_cons_of_mem _ (List.mem_cons_of_mem _ he)

theorem bind (h : P.Joint spine s t) (he : e ∈ 0 :: spine) (hb : b.type.Closed)
    (hx : b.narrowed = false → P.own x) :
    P.Joint spine (s.bind ⟨P.left.base + e⟩ x b) (t.bind ⟨P.right.base + e⟩ x b) := by
  have hzero : 0 ∈ 0 :: spine := List.mem_cons_self
  have hleft := h.left.bind (Nat.le_add_right P.left.base e) x b
  have hright := h.right.bind (Nat.le_add_right P.right.base e) x b
  have hsat (d : Nat) (hd : d ∈ 0 :: spine) := h.left.bindings_bind e hd x b
  have htat (d : Nat) (hd : d ∈ 0 :: spine) := h.right.bindings_bind e hd x b
  have hsfrom (y : String) := h.left.lookupFrom_bind he y x b
  have htfrom (y : String) := h.right.lookupFrom_bind he y x b
  have hsbase := hsat 0 hzero
  have htbase := htat 0 hzero
  have hsize (s : Scopes) (id : ScopeId) : (s.bind id x b).all.size = s.all.size := Array.size_modify
  simp only [Nat.add_zero] at hsbase htbase
  refine ⟨hleft, hright, by rw [hsize, hsize, h.size], ?_, fun d hd => ?_, fun d hd => ?_, fun d hd => ?_,
    fun y hy => ?_, fun y hy => ?_, fun y hy => ?_, fun y hy => ?_, fun y hy => ?_⟩
  · have := h.generation
    change s.generation + 1 + _ = t.generation + 1 + _
    omega
  · have hmem := List.mem_cons_of_mem 0 hd
    rw [hsat d hmem, htat d hmem, h.inner d hd]
  · rw [hsat d (List.mem_cons_of_mem 0 hd)]
    split
    · exact (h.closed d hd).insert x hb
    · exact h.closed d hd
  · rw [hsat d (List.mem_cons_of_mem 0 hd)]
    intro entry hentry hnarrowed
    split at hentry
    · rcases Table.mem_entries_insert hentry with rfl | hentry
      · exact hx hnarrowed
      · exact h.changed d hd entry hentry hnarrowed
    · exact h.changed d hd entry hentry hnarrowed
  · rw [hsfrom, htfrom]
    split
    · rfl
    · exact h.reads y hy
  · rw [hsfrom]
    split
    · exact fun _ hfound => Option.mem_some.1 hfound ▸ hb
    · exact h.readClosed y hy
  · rw [hsbase, htbase]
    split
    · rw [Table.get?_insert, Table.get?_insert, h.own y hy]
    · exact h.own y hy
  · exact h.left.own_bind he x b (h.ownLeft y hy)
  · exact h.right.own_bind he x b (h.ownRight y hy)

theorem headD_mem (spine : List Nat) : spine.headD 0 ∈ 0 :: spine := by
  cases spine <;> simp

theorem bindHere (h : P.Joint spine s t) (hb : b.type.Closed) (hx : b.narrowed = false → P.own x) :
    P.Joint spine (s.bind s.current x b) (t.bind t.current x b) := by
  rw [h.left.current, h.right.current]
  exact h.bind (headD_mem spine) hb hx

theorem set (h : P.Joint spine s t) (hx : P.own x) {type : Ty} (htype : type.Closed) (confidence : Float) :
    P.Joint spine (s.set x type confidence) (t.set x type confidence) := by
  unfold Scopes.set
  rw [h.left.target, h.right.target]
  exact h.bindHere htype fun _ => hx

theorem narrow (h : P.Joint spine s t) {type : Ty} (htype : type.Closed) (x : String) :
    P.Joint spine (s.narrow x type) (t.narrow x type) :=
  h.bindHere htype nofun

theorem update (h : P.Joint spine s t) (hx : P.own x) {type : Ty} (htype : type.Closed) :
    P.Joint spine (s.update x type) (t.update x type) := by
  have hs : s.here.redirects.get? x = none := by
    rw [Scopes.here, h.left.fresh.redirects _ h.left.fresh.current]
    rfl
  have ht : t.here.redirects.get? x = none := by
    rw [Scopes.here, h.right.fresh.redirects _ h.right.fresh.current]
    rfl
  rw [Scopes.update, Scopes.update, hs, ht, Option.none_or, Option.none_or]
  rcases h.defining? hx with ⟨hs, ht⟩ | ⟨e, he, hs, ht, hget⟩
  · rw [hs, ht]
    exact h.set hx htype 1.0
  · rw [hs, ht]
    simp only [hget]
    exact h.bind he htype fun _ => hx

theorem visible? (h : P.Joint spine s t) (hx : P.own x) :
    s.visible? s.current x = t.visible? t.current x ∧ ∀ found ∈ s.visible? s.current x, found.1.Closed := by
  have hget := h.get?_here hx
  obtain ⟨hlookup, hclosed⟩ := h.lookup (P.readsOwn x hx)
  unfold Scopes.visible?
  rw [← Scopes.here, ← Scopes.here, ← hget]
  cases hhere : s.here.bindings.get? x with
  | some b =>
    refine ⟨rfl, fun found hfound => ?_⟩
    obtain rfl := Option.mem_some.1 hfound
    exact hclosed b (h.left.lookup_of_here hhere)
  | none =>
    cases hs : s.lookup x with
    | none =>
      have ht : t.lookup x = none := by simpa [hs] using hlookup
      rw [ht]
      exact ⟨rfl, fun found hfound => absurd hfound (Option.not_mem_none found)⟩
    | some b =>
      obtain ⟨b', ht, htype⟩ : ∃ b', t.lookup x = some b' ∧ b'.type = b.type := by
        simpa [hs, eq_comm] using hlookup
      rw [ht, Option.map_some, Option.map_some, htype]
      refine ⟨rfl, fun found hfound => ?_⟩
      obtain rfl := Option.mem_some.1 hfound
      exact hclosed b hs

theorem rebound (h : P.Joint spine s t) (hx : P.own x) {value : Ty} (hvalue : value.Closed)
    (confidence : Float) (a b : Arena) :
    (s.rebound a s.current x value confidence).1 = (t.rebound b t.current x value confidence).1 ∧
      (s.rebound a s.current x value confidence).1.Closed := by
  obtain ⟨hvisible, hclosed⟩ := h.visible? hx
  unfold Scopes.rebound
  rw [← hvisible]
  cases hfound : s.visible? s.current x with
  | none => exact ⟨rfl, hvalue⟩
  | some found =>
    have hold := hclosed found hfound
    simp only
    rw [Arena.isSubtype_eq_of_closed hvalue hold a b]
    split
    · exact ⟨rfl, hvalue⟩
    · cases found.2 with
      | true => exact ⟨rfl, Ty.sound_oneOf_pair hold hvalue⟩
      | false => exact ⟨rfl, hvalue⟩

theorem add (h : P.Joint spine s t) (hx : P.own x) {value : Ty} (hvalue : value.Closed)
    (confidence : Float) (a b : Arena) :
    P.Joint spine (s.add a x value confidence).2 (t.add b x value confidence).2 := by
  obtain ⟨hsame, hclosed⟩ := h.rebound hx hvalue confidence a b
  unfold Scopes.add
  rw [h.left.target, h.right.target]
  simp only
  rw [← hsame]
  exact h.bindHere hclosed fun _ => hx

theorem mergeBinding (h : P.Joint spine s t) (hx : P.own x) (hb : b.type.Closed) (a c : Arena) :
    P.Joint spine (s.mergeBinding a x b) (t.mergeBinding c x b) := by
  obtain ⟨hlookup, hclosed⟩ := h.lookup (P.readsOwn x hx)
  unfold Scopes.mergeBinding
  rw [h.left.target, h.right.target]
  cases hs : s.lookup x with
  | none =>
    have ht : t.lookup x = none := by simpa [hs] using hlookup
    rw [ht]
    exact h.bindHere hb fun _ => hx
  | some existing =>
    obtain ⟨existing', ht, htype⟩ : ∃ b', t.lookup x = some b' ∧ b'.type = existing.type := by
      simpa [hs, eq_comm] using hlookup
    have hexisting := hclosed existing hs
    rw [ht]
    simp only [htype]
    rw [Arena.isSubtype_eq_of_closed hb hexisting a c]
    refine h.bindHere ?_ fun _ => hx
    simp only
    split
    · exact Ty.sound_oneOf_pair hexisting hb
    · exact hb

theorem mergeBindings (h : P.Joint spine s t) {entries : List (String × Binding)}
    (hown : ∀ entry ∈ entries, P.own entry.1) (hclosed : ∀ entry ∈ entries, entry.2.type.Closed)
    (a c : Arena) :
    P.Joint spine (entries.foldl (fun s entry => s.mergeBinding a entry.1 entry.2) s)
      (entries.foldl (fun t entry => t.mergeBinding c entry.1 entry.2) t) := by
  induction entries generalizing s t with
  | nil => exact h
  | cons entry entries ih =>
    obtain ⟨hfirst, hrest⟩ := List.forall_mem_cons.1 hown
    obtain ⟨hfirstClosed, hrestClosed⟩ := List.forall_mem_cons.1 hclosed
    exact ih (h.mergeBinding hfirst hfirstClosed a c) hrest hrestClosed

theorem enter (h : P.Joint spine s t) (label : String) :
    P.Joint ((s.all.size - P.left.base) :: spine) (s.enter label).2 (t.enter label).2 := by
  have hsize := h.size
  have hleft := h.left.inside
  have hright := h.right.inside
  have hoffset : t.all.size - P.right.base = s.all.size - P.left.base := by omega
  have hsall : (s.enter label).2.all = s.all.push { name := label, parent := some s.current } := rfl
  have htall : (t.enter label).2.all = t.all.push { name := label, parent := some t.current } := rfl
  have hsnew : P.left.base + (s.all.size - P.left.base) = s.all.size := by omega
  have htnew : P.right.base + (s.all.size - P.left.base) = t.all.size := by omega
  have hsat {d : Nat} (hd : d ∈ 0 :: spine) :
      (s.enter label).2.scopeAt ⟨P.left.base + d⟩ = s.scopeAt ⟨P.left.base + d⟩ :=
    Scopes.scopeAt_of_push (h.left.inside_of_mem hd) hsall
  have htat {d : Nat} (hd : d ∈ 0 :: spine) :
      (t.enter label).2.scopeAt ⟨P.right.base + d⟩ = t.scopeAt ⟨P.right.base + d⟩ :=
    Scopes.scopeAt_of_push (h.right.inside_of_mem hd) htall
  have hsbindings : ((s.enter label).2.scopeAt ⟨s.all.size⟩).bindings = {} :=
    congrArg Scope.bindings (getD_push_size s.all _)
  have htbindings : ((t.enter label).2.scopeAt ⟨t.all.size⟩).bindings = {} :=
    congrArg Scope.bindings (getD_push_size t.all _)
  have hsbase := hsat List.mem_cons_self
  have htbase := htat List.mem_cons_self
  simp only [Nat.add_zero] at hsbase htbase
  refine ⟨h.left.enter label, ?_, ?_, ?_, fun d hd => ?_, fun d hd => ?_, fun d hd => ?_,
    fun x hx => ?_, fun x hx => ?_, fun x hx => ?_, fun x hx => ?_, fun x hx => ?_⟩
  · exact hoffset ▸ h.right.enter label
  · rw [hsall, htall, Array.size_push, Array.size_push]
    omega
  · have := h.generation
    change s.generation + 1 + _ = t.generation + 1 + _
    omega
  · rcases List.mem_cons.1 hd with rfl | hd
    · rw [hsnew, htnew, hsbindings, htbindings]
    · rw [hsat (List.mem_cons_of_mem 0 hd), htat (List.mem_cons_of_mem 0 hd), h.inner d hd]
  · rcases List.mem_cons.1 hd with rfl | hd
    · rw [hsnew, hsbindings]
      exact Table.all_empty
    · rw [hsat (List.mem_cons_of_mem 0 hd)]
      exact h.closed d hd
  · rcases List.mem_cons.1 hd with rfl | hd
    · rw [hsnew, hsbindings]
      exact nofun
    · rw [hsat (List.mem_cons_of_mem 0 hd)]
      exact h.changed d hd
  · rw [h.left.lookupFrom_enter, h.right.lookupFrom_enter, h.reads x hx]
  · rw [h.left.lookupFrom_enter]
    exact h.readClosed x hx
  · rw [hsbase, htbase, h.own x hx]
  · rw [h.left.lookupFrom_enter, hsbase, h.ownLeft x hx]
  · rw [h.right.lookupFrom_enter, htbase, h.ownRight x hx]

theorem exit (h : P.Joint (d :: rest) s t) : P.Joint rest s.exit t.exit := by
  rw [h.left.exit_eq, h.right.exit_eq]
  exact h.outer.touch

theorem exitBranch (h : P.Joint (d :: rest) s t) (a b : Arena) :
    P.Joint rest (s.exitBranch a) (t.exitBranch b) := by
  have hclosed := h.here_closed
  unfold Scopes.exitBranch
  rw [h.left.parent, h.right.parent, ← h.here]
  refine (h.outer.mergeBindings (fun entry hentry => ?_) (fun entry hentry => ?_) a b).touch
  · obtain ⟨hmem, hnarrowed⟩ := List.mem_filter.1 hentry
    have hhere : s.here = s.scopeAt ⟨P.left.base + d⟩ := congrArg s.scopeAt h.left.current
    exact h.changed d List.mem_cons_self entry (hhere ▸ hmem) (by simpa using hnarrowed)
  · exact hclosed entry (List.mem_filter.1 hentry).1

end Joint

end Pairing

end Credence

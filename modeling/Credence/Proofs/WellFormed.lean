import Credence.Proofs.Likeness
import Credence.Proofs.Stable

namespace Credence

/-- A container whose lists are in step. -/
structure Container.Formed (c : Container Ty) : Prop where
  distinct : c.Distinct
  isUndefined : ∀ t ∈ c.elts, t.isUndefined = false
  values : c.kind ≠ .dict → c.values = []
  probs : c.probs.length = c.elts.length

/-- Each element of a container is defined and has a probability. -/
structure Container.Weighted (c : Container Ty) : Prop where
  isUndefined : ∀ t ∈ c.elts, t.isUndefined = false
  probs : c.probs.length = c.elts.length

/-- A union of two or more alternatives with a probability each. -/
structure Union.Formed (u : Union Ty) : Prop where
  two : 2 ≤ u.elts.length
  distinct : Ty.Distinct u.elts
  isUndefined : ∀ t ∈ u.elts, t.isUndefined = false
  isUnion : ∀ t ∈ u.elts, t.isUnion = false
  probs : u.probs.length = u.elts.length

/-- Types that are formed all the way down, into the signatures of builtins too if these count. -/
inductive Ty.WellFormed (signatures : Bool) : Ty → Prop
  | leaf {t : Ty} (h : t.isLeaf = true) (hb : ∀ b, t ≠ .builtin b) : WellFormed signatures t
  | builtin {b : Builtin Ty} (params : signatures = true → ∀ t ∈ b.params, WellFormed signatures t)
      (ret : signatures = true → WellFormed signatures b.ret) : WellFormed signatures (.builtin b)
  | container {c : Container Ty} (formed : c.Formed) (elts : ∀ t ∈ c.elts, WellFormed signatures t)
      (values : ∀ t ∈ c.values, WellFormed signatures t) : WellFormed signatures (.container c)
  | union {u : Union Ty} (formed : u.Formed) (elts : ∀ t ∈ u.elts, WellFormed signatures t) :
      WellFormed signatures (.union u)

namespace Container

variable {c : Container Ty}

theorem formed_empty (kind : ContainerKind) : Formed { kind } :=
  ⟨distinct_empty kind, fun _ h => absurd h List.not_mem_nil, fun _ => rfl, rfl⟩

theorem Weighted.pushWith (h : c.Weighted) (elt : Ty) (value? : Option Ty) (prob : Float) :
    (c.pushWith elt value? prob).Weighted := by
  rcases pushWith_cases c elt value? prob with hsame | ⟨hdefined, hmore⟩
  · rw [hsame]
    exact h
  · rw [hmore]
    constructor
    case isUndefined =>
      exact List.forall_mem_append.2 ⟨h.isUndefined, List.forall_mem_singleton.2 hdefined⟩
    case probs => simp [h.probs]

theorem Formed.weighted (h : c.Formed) : c.Weighted :=
  ⟨h.isUndefined, h.probs⟩

theorem Formed.pushWith (h : c.Formed) (elt : Ty) (value? : Option Ty) (prob : Float) :
    (c.pushWith elt value? prob).Formed := by
  have hweighted := h.weighted.pushWith elt value? prob
  refine ⟨h.distinct.pushWith elt value? prob, hweighted.isUndefined, ?_, hweighted.probs⟩
  rcases pushWith_cases c elt value? prob with hsame | ⟨-, hmore⟩
  · rw [hsame]
    exact h.values
  · rw [hmore]
    intro hkind
    exact (if_neg hkind).trans (h.values hkind)

end Container

namespace Ty.WellFormed

variable {signatures : Bool} {c : Container Ty} {u : Union Ty} {s t : Ty}

theorem formed (h : WellFormed signatures (.container c)) : c.Formed := by
  cases h with
  | leaf h => cases h
  | container formed _ _ => exact formed

theorem elts (h : WellFormed signatures (.container c)) : ∀ t ∈ c.elts, WellFormed signatures t := by
  cases h with
  | leaf h => cases h
  | container _ elts _ => exact elts

theorem values (h : WellFormed signatures (.container c)) :
    ∀ t ∈ c.values, WellFormed signatures t := by
  cases h with
  | leaf h => cases h
  | container _ _ values => exact values

theorem ofUnion (h : WellFormed signatures (.union u)) : ∀ t ∈ u.elts, WellFormed signatures t := by
  cases h with
  | leaf h => cases h
  | union _ elts => exact elts

theorem formed_union (h : WellFormed signatures (.union u)) : u.Formed := by
  cases h with
  | leaf h => cases h
  | union formed _ => exact formed

theorem flat (h : WellFormed signatures (.union u)) : u.Flat :=
  ⟨h.formed_union.isUnion, h.formed_union.probs⟩

theorem parts (h : WellFormed signatures s) (ht : t ∈ s.parts) : WellFormed signatures t := by
  cases s with
  | union u => exact h.ofUnion t ht
  | _ => exact List.mem_singleton.1 ht ▸ h

theorem pushWith {elt : Ty} {value? : Option Ty} (prob : Float)
    (hc : WellFormed signatures (.container c)) (helt : WellFormed signatures elt)
    (hvalue : ∀ t ∈ value?, WellFormed signatures t) :
    WellFormed signatures (.container (c.pushWith elt value? prob)) := by
  have helts := Container.forall_elts_pushWith value? prob hc.elts helt
  have hvalues := Container.forall_values_pushWith elt prob (.leaf rfl nofun) hc.values hvalue
  exact .container (hc.formed.pushWith elt value? prob) helts hvalues

theorem oneOf {ts : List Ty} (weights? : Option (List Float))
    (h : ∀ t ∈ ts, WellFormed signatures t) : WellFormed signatures (.oneOf ts weights?) := by
  have hflat (u : Union Ty) (hu : Ty.union u ∈ ts) : u.Flat := (h _ hu).flat
  have hnormal := Union.normal_ofList weights? hflat
  have helts : ∀ t ∈ (Union.ofList ts weights?).elts, WellFormed signatures t := by
    intro t ht
    obtain ⟨⟨s, hs, hparts⟩, -⟩ := Union.mem_parts_of_mem_ofList (fun u hu => (hflat u hu).probs) ht
    exact (h s hs).parts hparts
  apply of_oneOf (.leaf rfl nofun) helts
  intro htwo
  have hformed : (Union.ofList ts weights?).Formed :=
    ⟨htwo, hnormal.distinct, hnormal.isUndefined, hnormal.isUnion, hnormal.probs⟩
  exact .union hformed helts

theorem stable : Stable (WellFormed signatures) where
  any := .leaf rfl nofun
  prim _ := .leaf rfl nofun
  elts := elts
  values := values
  ofUnion := ofUnion
  oneOf := oneOf
  empty kind := .container (Container.formed_empty kind) (fun _ h => absurd h List.not_mem_nil)
    fun _ h => absurd h List.not_mem_nil
  pushWith := pushWith
  builtin params ret := .builtin (fun _ => params) fun _ => ret

/-- What the operations on types make of well-formed types: unions, what containers and other types yield,
containers that grow, and the results of operators, of builtin callables and of the methods of
containers. -/
theorem closed {ts : List Ty} {value? : Option Ty} {d : Container Ty}
    (hts : ∀ t ∈ ts, WellFormed signatures t) (hs : WellFormed signatures s)
    (ht : WellFormed signatures t) (hvalue : ∀ v ∈ value?, WellFormed signatures v)
    (hc : WellFormed signatures (.container c)) (hd : WellFormed signatures (.container d))
    (a : Arena) (weights? : Option (List Float)) (binary : BinaryOp) (unary : UnaryOp)
    (name : String) :
    WellFormed signatures (.oneOf ts weights?) ∧
      WellFormed signatures t.elementType ∧
      WellFormed signatures c.elementType ∧
      WellFormed signatures c.valueType ∧
      WellFormed signatures (.container (c.push t value?)) ∧
      (c.kind = d.kind → WellFormed signatures (.container (c.extended d))) ∧
      (∀ r, a.combine binary s t = .ok r → WellFormed signatures r) ∧
      WellFormed signatures (t.applyUnary unary) ∧
      (∀ r, Builtin.refine? name ts = some r → WellFormed signatures r) ∧
      ∀ m, c.member? name = some m → ∃ b : Builtin Ty,
        m = .builtin b ∧ (∀ p ∈ b.params, WellFormed signatures p) ∧ WellFormed signatures b.ret := by
  refine ⟨oneOf weights? hts, stable.elementType ht, stable.containerElementType hc,
    stable.valueType hc, pushWith 1.0 hc ht hvalue, ?_, ?_, stable.applyUnary unary ht, ?_, ?_⟩
  · intro hkind
    exact stable.extended hc hd hkind
  · intro r hr
    exact stable.combine hs ht hr
  · intro r hr
    exact stable.refine? hts hr
  · intro m hm
    exact stable.callable_member? hc hm

/-- A list of numbers takes in a list of texts, and they are joined to a union. -/
theorem closed_numbers_texts :
    (∀ t ∈ [Ty.int, .str], WellFormed true t) ∧
      WellFormed true (.listOf [.int]) ∧ WellFormed true (.listOf [.str]) ∧
      WellFormed true (.oneOf [.int, .str]) ∧
      WellFormed true (.container ((Container.ofElts .list [.int]).extended (.ofElts .list [.str]))) ∧
      ∀ r, Arena.combine {} .add (.listOf [.int]) (.listOf [.str]) = .ok r → WellFormed true r := by
  have hint : WellFormed true .int := stable.prim _
  have hstr : WellFormed true .str := stable.prim _
  have hboth : ∀ t ∈ [Ty.int, .str], WellFormed true t :=
    List.forall_mem_cons.2 ⟨hint, List.forall_mem_singleton.2 hstr⟩
  have hints : WellFormed true (.listOf [.int]) := stable.listOf (List.forall_mem_singleton.2 hint)
  have hstrs : WellFormed true (.listOf [.str]) := stable.listOf (List.forall_mem_singleton.2 hstr)
  have hnone : ∀ v ∈ (Option.none : Option Ty), WellFormed true v :=
    fun _ hv => absurd hv (Option.not_mem_none _)
  obtain ⟨hunion, -, -, -, -, hextended, hcombine, -⟩ :=
    closed hboth hints hstrs hnone hints hstrs {} .none .add .not "pop"
  have hkind : (Container.ofElts .list [Ty.int]).kind = (Container.ofElts .list [Ty.str]).kind := by
    simp [Container.ofElts, Container.push, Container.pushWith, isUndefined, among]
  exact ⟨hboth, hints, hstrs, hunion, hextended hkind, hcombine⟩

end Ty.WellFormed

end Credence

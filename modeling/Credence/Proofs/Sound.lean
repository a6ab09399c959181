import Credence.Proofs.Graph
import Credence.Proofs.Normal
import Credence.Proofs.Stable

namespace Credence

/-- A type that names only entries which are there, with unions in normal form. -/
inductive Ty.Sound (has : Entry → Prop) : Ty → Prop
  | any : Sound has .any
  | undefined : Sound has .undefined
  | prim (p : Prim) : Sound has (.prim p)
  | container {c : Container Ty} (elts : ∀ t ∈ c.elts, Sound has t)
      (values : ∀ t ∈ c.values, Sound has t) : Sound has (.container c)
  | union {u : Union Ty} (normal : u.Normal) (elts : ∀ t ∈ u.elts, Sound has t) :
      Sound has (.union u)
  | classObj {id : ClassId} (h : has (.cls id)) : Sound has (.classObj id)
  | object {id : ObjectId} (h : has (.object id)) : Sound has (.object id)
  | function {id : FunctionId} (h : has (.function id)) : Sound has (.function id)
  | method {object : ObjectId} {id : FunctionId} (hobject : has (.object object))
      (hid : has (.function id)) : Sound has (.method object id)
  | builtin {b : Builtin Ty} (params : ∀ t ∈ b.params, Sound has t) (ret : Sound has b.ret) :
      Sound has (.builtin b)
  | module {id : ModuleId} (h : has (.module id)) : Sound has (.module id)

namespace Ty.Sound

variable {has more : Entry → Prop} {s t : Ty} {c : Container Ty} {u : Union Ty}

theorem mono (h : t.Sound has) (hmono : ∀ e, has e → more e) : t.Sound more := by
  induction h with
  | any => exact .any
  | undefined => exact .undefined
  | prim p => exact .prim p
  | container _ _ elts values => exact .container elts values
  | union normal _ elts => exact .union normal elts
  | classObj h => exact .classObj (hmono _ h)
  | object h => exact .object (hmono _ h)
  | function h => exact .function (hmono _ h)
  | method ho hf => exact .method (hmono _ ho) (hmono _ hf)
  | builtin _ _ params ret => exact .builtin params ret
  | module h => exact .module (hmono _ h)

theorem of_none (h : t.Sound fun _ => False) : t.Sound has :=
  h.mono fun _ => False.elim

theorem has_of_mentions (h : t.Sound has) {e : Entry} (hm : t.Mentions e) : has e := by
  induction hm with
  | elt ht _ ih => cases h with | container elts _ => exact ih (elts _ ht)
  | value ht _ ih => cases h with | container _ values => exact ih (values _ ht)
  | alternative ht _ ih => cases h with | union _ elts => exact ih (elts _ ht)
  | receiver => cases h with | method ho _ => exact ho
  | method => cases h with | method _ hf => exact hf
  | _ => cases h; assumption

/-- What counts is which entries a type names. -/
theorem of_names (h : t.Sound has) (hm : ∀ e, t.Mentions e → more e)
    (hf : ∀ e, t.Fixes e → more e) : t.Sound more := by
  induction h with
  | any => exact .any
  | undefined => exact .undefined
  | prim p => exact .prim p
  | container _ _ elts values =>
    exact .container
      (fun s hs => elts s hs (fun e he => hm e (.elt hs he)) fun e he => hf e (.elt hs he))
      fun s hs => values s hs (fun e he => hm e (.value hs he)) fun e he => hf e (.value hs he)
  | union normal _ elts =>
    exact .union normal fun s hs =>
      elts s hs (fun e he => hm e (.alternative hs he)) fun e he => hf e (.alternative hs he)
  | classObj => exact .classObj (hm _ (.classObj _))
  | object => exact .object (hm _ (.object _))
  | function => exact .function (hm _ (.function _))
  | method => exact .method (hm _ (.receiver _ _)) (hm _ (.method _ _))
  | builtin _ _ params ret =>
    exact .builtin
      (fun s hs => params s hs (fun e he => hf e (.param hs he)) fun e he => hf e (.inParam hs he))
      (ret (fun e he => hf e (.ret he)) fun e he => hf e (.inRet he))
  | module => exact .module (hm _ (.module _))

theorem elts (h : (Ty.container c).Sound has) : ∀ t ∈ c.elts, t.Sound has := by
  cases h with | container elts _ => exact elts

theorem values (h : (Ty.container c).Sound has) : ∀ t ∈ c.values, t.Sound has := by
  cases h with | container _ values => exact values

theorem ofUnion (h : (Ty.union u).Sound has) : ∀ t ∈ u.elts, t.Sound has := by
  cases h with | union _ elts => exact elts

theorem ret {b : Builtin Ty} (h : (Ty.builtin b).Sound has) : b.ret.Sound has := by
  cases h with | builtin _ ret => exact ret

theorem normal (h : (Ty.union u).Sound has) : u.Normal := by
  cases h with | union normal _ => exact normal

theorem parts (h : s.Sound has) (ht : t ∈ s.parts) : t.Sound has := by
  cases s with
  | union u => exact h.ofUnion t ht
  | _ => exact List.mem_singleton.1 ht ▸ h

end Ty.Sound

namespace Ty

variable {has : Entry → Prop}

theorem sound_union {elts : List Ty} (weights? : Option (List Float))
    (h : ∀ t ∈ elts, t.Sound has) : (Ty.union (.ofList elts weights?)).Sound has := by
  have hflat (u : Union Ty) (hu : Ty.union u ∈ elts) : u.Flat := (h _ hu).normal.flat
  refine .union (Union.normal_ofList weights? hflat) fun t ht => ?_
  obtain ⟨⟨s, hs, hparts⟩, -⟩ :=
    Union.mem_parts_of_mem_ofList (fun u hu => (hflat u hu).probs) ht
  exact (h s hs).parts hparts

theorem sound_oneOf {elts : List Ty} (weights? : Option (List Float))
    (h : ∀ t ∈ elts, t.Sound has) : (oneOf elts weights?).Sound has := by
  have hu := sound_union weights? h
  exact of_oneOf .any hu.ofUnion fun _ => hu

theorem sound_oneOf_pair {s t : Ty} (hs : s.Sound has) (ht : t.Sound has) :
    (oneOf [s, t]).Sound has :=
  sound_oneOf _ (by simp [hs, ht])

theorem sound_empty (kind : ContainerKind) : (Ty.container { kind }).Sound has :=
  .container (fun _ h => absurd h List.not_mem_nil) fun _ h => absurd h List.not_mem_nil

variable {c d : Container Ty}

theorem Sound.pushWith {elt : Ty} {value? : Option Ty} (hc : (Ty.container c).Sound has)
    (helt : elt.Sound has) (hvalue : ∀ t ∈ value?, t.Sound has) (prob : Float) :
    (Ty.container (c.pushWith elt value? prob)).Sound has := by
  have helts := Container.forall_elts_pushWith value? prob hc.elts helt
  have hvalues := Container.forall_values_pushWith elt prob .any hc.values hvalue
  exact .container helts hvalues

/-- What holds of the parts of a type holds of what the operations on types make of it. -/
theorem Sound.stable : Stable (Sound has) where
  any := .any
  prim := .prim
  elts := Sound.elts
  values := Sound.values
  ofUnion := Sound.ofUnion
  oneOf := sound_oneOf
  empty := sound_empty
  pushWith prob hc helt hvalue := hc.pushWith helt hvalue prob
  builtin := .builtin

theorem Sound.alternatives {s : Ty} (h : s.Sound has) {item : Ty × Float}
    (hitem : item ∈ s.alternatives) : item.1.Sound has :=
  stable.alternatives h hitem

theorem sound_oneOf_weighted {items : List (Ty × Float)} (h : ∀ item ∈ items, item.1.Sound has) :
    (oneOf (items.map (·.1)) (some (items.map (·.2)))).Sound has :=
  Sound.stable.oneOf_weighted h

theorem Sound.push {elt : Ty} (hc : (Ty.container c).Sound has) (helt : elt.Sound has) :
    (Ty.container (c.push elt)).Sound has :=
  stable.push hc helt

theorem Sound.pushKnown {elt : Ty} (hc : (Ty.container c).Sound has) (helt : elt.Sound has) :
    (Ty.container (c.pushKnown elt)).Sound has :=
  stable.pushKnown hc helt

theorem Sound.pushPair {key value : Ty} (hc : (Ty.container c).Sound has) (hkey : key.Sound has)
    (hvalue : value.Sound has) : (Ty.container (c.pushPair key value)).Sound has :=
  stable.pushPair hc hkey hvalue

theorem sound_dictOf {keys values : List Ty} (hkeys : ∀ t ∈ keys, t.Sound has)
    (hvalues : ∀ t ∈ values, t.Sound has) : (dictOf keys values).Sound has :=
  Sound.stable.dictOf hkeys hvalues

theorem sound_listOf {elts : List Ty} (h : ∀ t ∈ elts, t.Sound has) : (listOf elts).Sound has :=
  Sound.stable.listOf h

theorem sound_tupleOf {elts : List Ty} (h : ∀ t ∈ elts, t.Sound has) : (tupleOf elts).Sound has :=
  Sound.stable.tupleOf h

theorem Sound.extended (hc : (Ty.container c).Sound has) (hd : (Ty.container d).Sound has) :
    (Ty.container (c.extended d)).Sound has :=
  stable.extendedFrom hc hd fun _ _ => .container hc.elts hc.values

theorem Sound.containerElementType (hc : (Ty.container c).Sound has) : c.elementType.Sound has :=
  stable.containerElementType hc

theorem Sound.valueType (hc : (Ty.container c).Sound has) : c.valueType.Sound has :=
  stable.valueType hc

theorem Sound.elementType {t : Ty} (h : t.Sound has) : t.elementType.Sound has :=
  stable.elementType h

end Ty

end Credence

import Mathlib.Data.List.Forall2
import Mathlib.Logic.Relation
import Credence.Scope.Adopt

namespace Credence

inductive Entry where
  | cls (id : ClassId)
  | object (id : ObjectId)
  | function (id : FunctionId)
  | module (id : ModuleId)
  | scope (id : ScopeId)

/-- The entries that a type names. The signature of a builtin callable does not count. -/
inductive Ty.Mentions : Ty → Entry → Prop
  | classObj (id : ClassId) : Mentions (.classObj id) (.cls id)
  | object (id : ObjectId) : Mentions (.object id) (.object id)
  | function (id : FunctionId) : Mentions (.function id) (.function id)
  | receiver (object : ObjectId) (id : FunctionId) : Mentions (.method object id) (.object object)
  | method (object : ObjectId) (id : FunctionId) : Mentions (.method object id) (.function id)
  | module (id : ModuleId) : Mentions (.module id) (.module id)
  | elt {c : Container Ty} {t : Ty} {e : Entry} :
    t ∈ c.elts → Mentions t e → Mentions (.container c) e
  | value {c : Container Ty} {t : Ty} {e : Entry} :
    t ∈ c.values → Mentions t e → Mentions (.container c) e
  | alternative {u : Union Ty} {t : Ty} {e : Entry} :
    t ∈ u.elts → Mentions t e → Mentions (.union u) e

/-- The entries that the signatures of the builtin callables in a type name. -/
inductive Ty.Fixes : Ty → Entry → Prop
  | param {b : Builtin Ty} {t : Ty} {e : Entry} :
    t ∈ b.params → t.Mentions e → Fixes (.builtin b) e
  | ret {b : Builtin Ty} {e : Entry} : b.ret.Mentions e → Fixes (.builtin b) e
  | inParam {b : Builtin Ty} {t : Ty} {e : Entry} : t ∈ b.params → Fixes t e → Fixes (.builtin b) e
  | inRet {b : Builtin Ty} {e : Entry} : Fixes b.ret e → Fixes (.builtin b) e
  | elt {c : Container Ty} {t : Ty} {e : Entry} : t ∈ c.elts → Fixes t e → Fixes (.container c) e
  | value {c : Container Ty} {t : Ty} {e : Entry} :
    t ∈ c.values → Fixes t e → Fixes (.container c) e
  | alternative {u : Union Ty} {t : Ty} {e : Entry} :
    t ∈ u.elts → Fixes t e → Fixes (.union u) e

def ParamInfo.Uses (p : ParamInfo) (t : Ty) : Prop :=
  p.ascribed = some t ∨ p.default = some t

namespace World

/-- An entry holds a type. The outermost scope does not count: it is the same in all worlds. -/
inductive Stores (w : World) : Entry → Ty → Prop
  | slot {id : ClassId} {name : String} {slot : Slot} :
    (name, slot) ∈ (w.arena.classAt id).attributes.entries → Stores w (.cls id) slot.type
  | overlay {id : ObjectId} {name : String} {t : Ty} :
    (name, t) ∈ (w.arena.objectAt id).overlay.entries → Stores w (.object id) t
  | param {id : FunctionId} {p : ParamInfo} {t : Ty} :
    p ∈ (w.arena.functionAt id).signature.all → p.Uses t → Stores w (.function id) t
  | declared {id : FunctionId} {t : Ty} :
    (w.arena.functionAt id).declaredReturn = some t → Stores w (.function id) t
  | last {id : FunctionId} {t : Ty} :
    (w.arena.functionAt id).lastReturn = some t → Stores w (.function id) t
  | exported {id : ModuleId} {name : String} {t : Ty} :
    (name, t) ∈ (w.arena.moduleAt id).exports.entries → Stores w (.module id) t
  | binding {id : ScopeId} {name : String} {b : Binding} : id ≠ Scopes.global →
    (name, b) ∈ (w.scopes.scopeAt id).bindings.entries → Stores w (.scope id) b.type

/-- An entry leads to another: it names it, or holds a type that does. -/
inductive Leads (w : World) : Entry → Entry → Prop
  | base {id base : ClassId} : base ∈ (w.arena.classAt id).bases → Leads w (.cls id) (.cls base)
  | classOf (id : ObjectId) : Leads w (.object id) (.cls (w.arena.classOf id))
  | owner {id : FunctionId} {owner : ClassId} :
    (w.arena.functionAt id).owner = some owner → Leads w (.function id) (.cls owner)
  | captured (id : FunctionId) : Leads w (.function id) (.scope (w.arena.functionAt id).captured)
  | parent {id parent : ScopeId} : id ≠ Scopes.global →
    (w.scopes.scopeAt id).parent = some parent → Leads w (.scope id) (.scope parent)
  | stored {e f : Entry} {t : Ty} : w.Stores e t → t.Mentions f → Leads w e f

def Reaches (w : World) : Entry → Entry → Prop :=
  Relation.ReflTransGen w.Leads

def Inherits (w : World) : ClassId → ClassId → Prop :=
  Relation.TransGen fun id base => base ∈ (w.arena.classAt id).bases

/-- A set of entries that no way leads out of. -/
def Closed (w : World) (P : Entry → Prop) : Prop :=
  ∀ ⦃e f : Entry⦄, P e → w.Leads e f → P f

/-- What some entries lead to, themselves included. -/
def Spans (w : World) (roots : Entry → Prop) (e : Entry) : Prop :=
  ∃ root, roots root ∧ w.Reaches root e

theorem spans_of_root (w : World) {roots : Entry → Prop} {e : Entry} (h : roots e) :
    w.Spans roots e :=
  ⟨e, h, .refl⟩

theorem closed_spans (w : World) (roots : Entry → Prop) : w.Closed (w.Spans roots) := by
  rintro e f ⟨root, hroot, hr⟩ hl
  exact ⟨root, hroot, hr.tail hl⟩

theorem closed_reaches (w : World) (root : Entry) : w.Closed (w.Reaches root) :=
  fun _ _ h hl => h.tail hl

theorem Closed.of_reaches {w : World} {P : Entry → Prop} (h : w.Closed P) {e f : Entry} (he : P e)
    (hr : w.Reaches e f) : P f := by
  induction hr with
  | refl => exact he
  | tail _ hl ih => exact h ih hl

end World

section Copies

-- Which entries of one world stand for which of the other.
variable (R : Entry → Entry → Prop)

/-- A type and its copy. Alternatives that are alike are merged again. -/
inductive Ty.Copied : Ty → Ty → Prop
  | any : Copied .any .any
  | undefined : Copied .undefined .undefined
  | prim (p : Prim) : Copied (.prim p) (.prim p)
  | builtin (b : Builtin Ty) : Copied (.builtin b) (.builtin b)
  | container {c : Container Ty} {elts values : List Ty} : List.Forall₂ Copied c.elts elts →
    List.Forall₂ Copied c.values values → Copied (.container c) (.container { c with elts, values })
  | union {u : Union Ty} {elts : List Ty} : List.Forall₂ Copied u.elts elts →
    Copied (.union u) (.union (.ofList elts (some u.probs)))
  | classObj {id copy : ClassId} : R (.cls id) (.cls copy) → Copied (.classObj id) (.classObj copy)
  | object {id copy : ObjectId} : R (.object id) (.object copy) → Copied (.object id) (.object copy)
  | function {id copy : FunctionId} : R (.function id) (.function copy) →
    Copied (.function id) (.function copy)
  | method {object copy : ObjectId} {id method : FunctionId} : R (.object object) (.object copy) →
    R (.function id) (.function method) → Copied (.method object id) (.method copy method)
  | module {id copy : ModuleId} : R (.module id) (.module copy) → Copied (.module id) (.module copy)

inductive Slot.Copied : Slot → Slot → Prop
  | value {t copy : Ty} : t.Copied R copy → Copied (.value t) (.value copy)
  | function {id copy : FunctionId} : R (.function id) (.function copy) →
    Copied (.function id) (.function copy)

def Table.Copied {α : Type} (rel : α → α → Prop) (t u : Table α) : Prop :=
  List.Forall₂ (fun x y => x.1 = y.1 ∧ rel x.2 y.2) t.entries u.entries

structure ClassInfo.Copied (c d : ClassInfo) : Prop where
  name : d.name = c.name
  bases : List.Forall₂ (fun b copy => R (.cls b) (.cls copy)) c.bases d.bases
  hasUnknownBase : d.hasUnknownBase = c.hasUnknownBase
  isDecorated : d.isDecorated = c.isDecorated
  attributes : c.attributes.Copied (Slot.Copied R) d.attributes
  line : d.line = c.line
  file : d.file = c.file

structure ObjectInfo.Copied (o p : ObjectInfo) : Prop where
  cls : R (.cls o.cls) (.cls p.cls)
  overlay : o.overlay.Copied (Ty.Copied R) p.overlay

structure ParamInfo.Copied (p q : ParamInfo) : Prop where
  name : q.name = p.name
  ascribed : Option.Rel (Ty.Copied R) p.ascribed q.ascribed
  default : Option.Rel (Ty.Copied R) p.default q.default

structure Signature.Copied (s t : Signature) : Prop where
  args : List.Forall₂ (ParamInfo.Copied R) s.args t.args
  vararg : Option.Rel (ParamInfo.Copied R) s.vararg t.vararg
  kwonly : List.Forall₂ (ParamInfo.Copied R) s.kwonly t.kwonly
  kwarg : Option.Rel (ParamInfo.Copied R) s.kwarg t.kwarg

/-- A function and its copy, which remembers no calls. -/
structure FunctionInfo.Copied (f g : FunctionInfo) : Prop where
  signature : f.signature.Copied R g.signature
  declaredReturn : Option.Rel (Ty.Copied R) f.declaredReturn g.declaredReturn
  lastReturn : Option.Rel (Ty.Copied R) f.lastReturn g.lastReturn
  owner : Option.Rel (fun c copy => R (.cls c) (.cls copy)) f.owner g.owner
  captured : R (.scope f.captured) (.scope g.captured)
  calls : g.calls = []
  same : { g with
    signature := f.signature, declaredReturn := f.declaredReturn, lastReturn := f.lastReturn
    owner := f.owner, captured := f.captured, calls := f.calls } = f

structure ModuleInfo.Copied (m n : ModuleInfo) : Prop where
  name : n.name = m.name
  exports : m.exports.Copied (Ty.Copied R) n.exports

structure Binding.Copied (b d : Binding) : Prop where
  type : b.type.Copied R d.type
  same : { d with type := b.type } = b

structure Scope.Copied (s t : Scope) : Prop where
  name : t.name = s.name
  parent : Option.Rel (fun p copy => R (.scope p) (.scope copy)) s.parent t.parent
  bindings : s.bindings.Copied (Binding.Copied R) t.bindings
  redirects : t.redirects = {}

end Copies

section Lists

variable {α β : Type} {rel other : α → β → Prop}

theorem forall₂_imp_of_mem {xs : List α} {ys : List β} (h : List.Forall₂ rel xs ys)
    (himp : ∀ x ∈ xs, ∀ y, rel x y → other x y) : List.Forall₂ other xs ys := by
  induction h with
  | nil => exact .nil
  | cons hxy _ ih =>
    exact .cons (himp _ (by simp) _ hxy) (ih fun x hx => himp x (by simp [hx]))

theorem exists_of_forall₂ {xs : List α} {ys : List β} (h : List.Forall₂ rel xs ys) {x : α}
    (hx : x ∈ xs) : ∃ y ∈ ys, rel x y := by
  induction h with
  | nil => cases hx
  | @cons a b xs ys hab _ ih =>
    rcases List.mem_cons.1 hx with rfl | hx
    · exact ⟨b, by simp, hab⟩
    · obtain ⟨y, hy, hxy⟩ := ih hx
      exact ⟨y, by simp [hy], hxy⟩

theorem optionRel_imp {x : Option α} {y : Option β} (h : Option.Rel rel x y)
    (himp : ∀ x y, rel x y → other x y) : Option.Rel other x y := by
  cases h with
  | none => exact .none
  | some hxy => exact .some (himp _ _ hxy)

theorem exists_of_optionRel {x : α} {o : Option β} (h : Option.Rel rel (some x) o) :
    ∃ y, o = some y ∧ rel x y := by
  cases h with
  | some hxy => exact ⟨_, rfl, hxy⟩

theorem exists_of_mem_optionRel {o : Option α} {p : Option β} (h : Option.Rel rel o p) {y : β} (hy : y ∈ p) :
    ∃ x ∈ o, rel x y := by
  cases h with
  | none => exact absurd hy (Option.not_mem_none _)
  | some h => exact ⟨_, rfl, Option.mem_some.1 hy ▸ h⟩

end Lists

section Mono

variable {R S : Entry → Entry → Prop} (hRS : ∀ {e f : Entry}, R e f → S e f)
include hRS

theorem Ty.Copied.mono {t u : Ty} (h : t.Copied R u) : t.Copied S u := by
  induction t using WellFounded.induction (measure (sizeOf : Ty → Nat)).wf generalizing u with
  | _ t ih =>
    cases h with
    | any => exact .any
    | undefined => exact .undefined
    | prim p => exact .prim p
    | builtin b => exact .builtin b
    | container helts hvalues =>
      refine .container (forall₂_imp_of_mem helts fun t ht u h => ?_)
        (forall₂_imp_of_mem hvalues fun t ht u h => ?_)
      · exact ih t (Ty.sizeOf_lt_of_mem_elts ht) h
      · exact ih t (Ty.sizeOf_lt_of_mem_values ht) h
    | union helts =>
      refine .union (forall₂_imp_of_mem helts fun t ht u h => ?_)
      exact ih t (Ty.sizeOf_lt_of_mem_union ht) h
    | classObj h => exact .classObj (hRS h)
    | object h => exact .object (hRS h)
    | function h => exact .function (hRS h)
    | method ho hf => exact .method (hRS ho) (hRS hf)
    | module h => exact .module (hRS h)

theorem Slot.Copied.mono {s t : Slot} (h : s.Copied R t) : s.Copied S t := by
  cases h with
  | value h => exact .value (h.mono hRS)
  | function h => exact .function (hRS h)

omit hRS in
theorem Table.Copied.mono {α : Type} {rel other : α → α → Prop} {t u : Table α}
    (h : t.Copied rel u) (himp : ∀ x y, rel x y → other x y) : t.Copied other u :=
  List.Forall₂.imp (fun _ _ hxy => ⟨hxy.1, himp _ _ hxy.2⟩) h

theorem ClassInfo.Copied.mono {c d : ClassInfo} (h : c.Copied R d) : c.Copied S d :=
  { h with
    bases := h.bases.imp fun _ _ hb => hRS hb
    attributes := Table.Copied.mono h.attributes fun _ _ hs => hs.mono hRS }

theorem ObjectInfo.Copied.mono {o p : ObjectInfo} (h : o.Copied R p) : o.Copied S p where
  cls := hRS h.cls
  overlay := Table.Copied.mono h.overlay fun _ _ ht => ht.mono hRS

theorem ParamInfo.Copied.mono {p q : ParamInfo} (h : p.Copied R q) : p.Copied S q where
  name := h.name
  ascribed := optionRel_imp h.ascribed fun _ _ ht => ht.mono hRS
  default := optionRel_imp h.default fun _ _ ht => ht.mono hRS

theorem Signature.Copied.mono {s t : Signature} (h : s.Copied R t) : s.Copied S t where
  args := h.args.imp fun _ _ hp => hp.mono hRS
  vararg := optionRel_imp h.vararg fun _ _ hp => hp.mono hRS
  kwonly := h.kwonly.imp fun _ _ hp => hp.mono hRS
  kwarg := optionRel_imp h.kwarg fun _ _ hp => hp.mono hRS

theorem FunctionInfo.Copied.mono {f g : FunctionInfo} (h : f.Copied R g) : f.Copied S g :=
  { h with
    signature := h.signature.mono hRS
    declaredReturn := optionRel_imp h.declaredReturn fun _ _ ht => ht.mono hRS
    lastReturn := optionRel_imp h.lastReturn fun _ _ ht => ht.mono hRS
    owner := optionRel_imp h.owner fun _ _ hc => hRS hc
    captured := hRS h.captured }

theorem ModuleInfo.Copied.mono {m n : ModuleInfo} (h : m.Copied R n) : m.Copied S n where
  name := h.name
  exports := Table.Copied.mono h.exports fun _ _ ht => ht.mono hRS

theorem Binding.Copied.mono {b d : Binding} (h : b.Copied R d) : b.Copied S d where
  type := h.type.mono hRS
  same := h.same

theorem Scope.Copied.mono {s t : Scope} (h : s.Copied R t) : s.Copied S t :=
  { h with
    parent := optionRel_imp h.parent fun _ _ hp => hRS hp
    bindings := Table.Copied.mono h.bindings fun _ _ hb => hb.mono hRS }

end Mono

section Matches

variable {R : Entry → Entry → Prop}

theorem Ty.Copied.exists_of_mentions {t u : Ty} {e : Entry} (h : t.Copied R u)
    (hm : t.Mentions e) : ∃ f, R e f := by
  induction hm generalizing u with
  | classObj id =>
    cases h with
    | classObj h => exact ⟨_, h⟩
  | object id =>
    cases h with
    | object h => exact ⟨_, h⟩
  | function id =>
    cases h with
    | function h => exact ⟨_, h⟩
  | module id =>
    cases h with
    | module h => exact ⟨_, h⟩
  | receiver object id =>
    cases h with
    | method ho _ => exact ⟨_, ho⟩
  | method object id =>
    cases h with
    | method _ hf => exact ⟨_, hf⟩
  | elt ht _ ih =>
    cases h with
    | container helts _ =>
      obtain ⟨u, _, hu⟩ := exists_of_forall₂ helts ht
      exact ih hu
  | value ht _ ih =>
    cases h with
    | container _ hvalues =>
      obtain ⟨u, _, hu⟩ := exists_of_forall₂ hvalues ht
      exact ih hu
  | alternative ht _ ih =>
    cases h with
    | union helts =>
      obtain ⟨u, _, hu⟩ := exists_of_forall₂ helts ht
      exact ih hu

theorem Slot.Copied.exists_of_mentions {s t : Slot} {e : Entry} (h : s.Copied R t)
    (hm : s.type.Mentions e) : ∃ f, R e f := by
  cases h with
  | value h => exact h.exists_of_mentions hm
  | function h =>
    cases hm
    exact ⟨_, h⟩

theorem ParamInfo.Copied.exists_of_uses {p q : ParamInfo} {t : Ty} {e : Entry} (h : p.Copied R q)
    (hu : p.Uses t) (hm : t.Mentions e) : ∃ f, R e f := by
  rcases hu with hu | hu
  · obtain ⟨t, _, h⟩ := exists_of_optionRel (hu ▸ h.ascribed)
    exact h.exists_of_mentions hm
  · obtain ⟨t, _, h⟩ := exists_of_optionRel (hu ▸ h.default)
    exact h.exists_of_mentions hm

theorem Signature.Copied.exists_of_mem {s t : Signature} {p : ParamInfo} (h : s.Copied R t)
    (hp : p ∈ s.all) : ∃ q, p.Copied R q := by
  simp only [Signature.all, List.mem_append, Option.mem_toList] at hp
  rcases hp with ((hp | hp) | hp) | hp
  · obtain ⟨q, _, h⟩ := exists_of_forall₂ h.args hp
    exact ⟨q, h⟩
  · obtain ⟨q, _, h⟩ := exists_of_optionRel (hp ▸ h.vararg)
    exact ⟨q, h⟩
  · obtain ⟨q, _, h⟩ := exists_of_forall₂ h.kwonly hp
    exact ⟨q, h⟩
  · obtain ⟨q, _, h⟩ := exists_of_optionRel (hp ▸ h.kwarg)
    exact ⟨q, h⟩

/-- An entry of a world is a copy of an entry of another. The bases of a class are older than it. -/
def World.Matches (w v : World) (R : Entry → Entry → Prop) : Entry → Entry → Prop
  | .cls id, .cls copy => (w.arena.classAt id).Copied R (v.arena.classAt copy) ∧
    ∀ base ∈ (v.arena.classAt copy).bases, base.val < copy.val
  | .object id, .object copy => (w.arena.objectAt id).Copied R (v.arena.objectAt copy)
  | .function id, .function copy => (w.arena.functionAt id).Copied R (v.arena.functionAt copy)
  | .module id, .module copy => (w.arena.moduleAt id).Copied R (v.arena.moduleAt copy)
  | .scope id, .scope copy => (w.scopes.scopeAt id).Copied R (v.scopes.scopeAt copy)
  | _, _ => False

theorem World.Matches.exists_of_stores {w v : World} {e f g : Entry} {t : Ty}
    (h : w.Matches v R e f) (hs : w.Stores e t) (hm : t.Mentions g) : ∃ copy, R g copy := by
  cases hs with
  | slot hs =>
    cases f with
    | cls copy =>
      obtain ⟨slot, _, h⟩ := exists_of_forall₂ h.1.attributes hs
      exact h.2.exists_of_mentions hm
    | _ => cases h
  | overlay ht =>
    cases f with
    | object copy =>
      obtain ⟨t, _, h⟩ := exists_of_forall₂ h.overlay ht
      exact h.2.exists_of_mentions hm
    | _ => cases h
  | param hp hu =>
    cases f with
    | function copy =>
      obtain ⟨q, h⟩ := h.signature.exists_of_mem hp
      exact h.exists_of_uses hu hm
    | _ => cases h
  | declared ht =>
    cases f with
    | function copy =>
      obtain ⟨t, _, h⟩ := exists_of_optionRel (ht ▸ h.declaredReturn)
      exact h.exists_of_mentions hm
    | _ => cases h
  | last ht =>
    cases f with
    | function copy =>
      obtain ⟨t, _, h⟩ := exists_of_optionRel (ht ▸ h.lastReturn)
      exact h.exists_of_mentions hm
    | _ => cases h
  | exported ht =>
    cases f with
    | module copy =>
      obtain ⟨t, _, h⟩ := exists_of_forall₂ h.exports ht
      exact h.2.exists_of_mentions hm
    | _ => cases h
  | binding _ hb =>
    cases f with
    | scope copy =>
      obtain ⟨b, _, h⟩ := exists_of_forall₂ h.bindings hb
      exact h.2.type.exists_of_mentions hm
    | _ => cases h

theorem World.Matches.exists_of_leads {w v : World} {e f g : Entry} (h : w.Matches v R e f)
    (hl : w.Leads e g) : ∃ copy, R g copy := by
  cases hl with
  | base hb =>
    cases f with
    | cls copy =>
      obtain ⟨b, _, h⟩ := exists_of_forall₂ h.1.bases hb
      exact ⟨_, h⟩
    | _ => cases h
  | classOf id =>
    cases f with
    | object copy => exact ⟨_, h.cls⟩
    | _ => cases h
  | owner hc =>
    cases f with
    | function copy =>
      obtain ⟨c, _, h⟩ := exists_of_optionRel (hc ▸ h.owner)
      exact ⟨_, h⟩
    | _ => cases h
  | captured id =>
    cases f with
    | function copy => exact ⟨_, h.captured⟩
    | _ => cases h
  | parent _ hp =>
    cases f with
    | scope copy =>
      obtain ⟨p, _, h⟩ := exists_of_optionRel (hp ▸ h.parent)
      exact ⟨_, h⟩
    | _ => cases h
  | stored hs hm => exact h.exists_of_stores hs hm

end Matches

end Credence

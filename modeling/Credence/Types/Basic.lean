import Credence.Types.Prim

namespace Credence

structure ClassId where
  val : Nat
deriving DecidableEq, Inhabited

structure ObjectId where
  val : Nat
deriving DecidableEq, Inhabited

structure FunctionId where
  val : Nat
deriving DecidableEq, Inhabited

structure ModuleId where
  val : Nat
deriving DecidableEq, Inhabited

structure ScopeId where
  val : Nat
deriving DecidableEq, Inhabited

/-- A container with a model of what it holds. A tuple has one element for each position; a list or
a set has the distinct types seen in it; a dict has distinct pairs of a key in `elts` and a value in
`values`. Each element has a probability. -/
structure Container (τ : Type) where
  kind : ContainerKind
  elts : List τ := []
  values : List τ := []
  probs : List Float := []

/-- Alternatives with a probability each. -/
structure Union (τ : Type) where
  elts : List τ := []
  probs : List Float := []

structure Builtin (τ : Type) where
  name : String
  params : List τ
  ret : τ

inductive Ty where
  | any
  | undefined
  | prim (kind : Prim)
  | container (model : Container Ty)
  | union (alternatives : Union Ty)
  | classObj (id : ClassId)
  | object (id : ObjectId)
  | function (id : FunctionId)
  /-- A function bound to the object that it was read from. -/
  | method (object : ObjectId) (function : FunctionId)
  | builtin (callable : Builtin Ty)
  | module (id : ModuleId)
deriving Inhabited

namespace Container

variable {τ : Type}

def isEmpty (c : Container τ) : Bool :=
  c.elts.isEmpty

def pairs (c : Container τ) : List (τ × τ) :=
  c.elts.zip c.values

theorem sizeOf_lt_of_mem_elts [SizeOf τ] {c : Container τ} {t : τ} (h : t ∈ c.elts) :
    sizeOf t < sizeOf c := by
  have := List.sizeOf_lt_of_mem h
  cases c
  simp only [Container.mk.sizeOf_spec] at *
  omega

theorem sizeOf_lt_of_mem_values [SizeOf τ] {c : Container τ} {t : τ} (h : t ∈ c.values) :
    sizeOf t < sizeOf c := by
  have := List.sizeOf_lt_of_mem h
  cases c
  simp only [Container.mk.sizeOf_spec] at *
  omega

end Container

namespace Union

variable {τ : Type}

def items (u : Union τ) : List (τ × Float) :=
  u.elts.zip u.probs

theorem sizeOf_lt_of_mem_elts [SizeOf τ] {u : Union τ} {t : τ} (h : t ∈ u.elts) :
    sizeOf t < sizeOf u := by
  have := List.sizeOf_lt_of_mem h
  cases u
  simp only [Union.mk.sizeOf_spec] at *
  omega

end Union

namespace Ty

@[match_pattern]
abbrev int : Ty := prim .int

@[match_pattern]
abbrev float : Ty := prim .float

@[match_pattern]
abbrev complex : Ty := prim .complex

@[match_pattern]
abbrev bool : Ty := prim .bool

@[match_pattern]
abbrev str : Ty := prim .str

@[match_pattern]
abbrev bytes : Ty := prim .bytes

@[match_pattern]
abbrev none : Ty := prim .noneType

def isUnknown : Ty → Bool
  | any | undefined => true
  | _ => false

def isUndefined : Ty → Bool
  | undefined => true
  | _ => false

def isNone : Ty → Bool
  | none => true
  | _ => false

/-- Only lists, sets and dicts cannot be hashed. -/
def isHashable : Ty → Bool
  | container c => c.kind == .tuple
  | _ => true

def isUnion : Ty → Bool
  | union _ => true
  | _ => false

def isFunctionLike : Ty → Bool
  | function _ | method _ _ | builtin _ => true
  | _ => false

def asContainer? : Ty → Option (Container Ty)
  | container c => some c
  | _ => .none

/-- Alternatives with their probabilities; a type that is no union is its own only alternative. -/
def alternatives : Ty → List (Ty × Float)
  | union u => u.items
  | t => [(t, 1.0)]

theorem sizeOf_lt_of_mem_elts {c : Container Ty} {t : Ty} (h : t ∈ c.elts) :
    sizeOf t < sizeOf (container c) := by
  have := Container.sizeOf_lt_of_mem_elts h
  simp only [container.sizeOf_spec]
  omega

theorem sizeOf_lt_of_mem_values {c : Container Ty} {t : Ty} (h : t ∈ c.values) :
    sizeOf t < sizeOf (container c) := by
  have := Container.sizeOf_lt_of_mem_values h
  simp only [container.sizeOf_spec]
  omega

theorem sizeOf_lt_of_mem_union {u : Union Ty} {t : Ty} (h : t ∈ u.elts) :
    sizeOf t < sizeOf (union u) := by
  have := Union.sizeOf_lt_of_mem_elts h
  simp only [union.sizeOf_spec]
  omega

theorem sizeOf_of_mem_alternatives {s : Ty} {item : Ty × Float} (h : item ∈ s.alternatives) :
    sizeOf item.1 ≤ sizeOf s ∧ (s.isUnion → sizeOf item.1 < sizeOf s) := by
  cases s with
  | union u =>
    have := sizeOf_lt_of_mem_union (List.of_mem_zip h).1
    omega
  | _ =>
    simp only [alternatives, List.mem_singleton] at h
    subst h
    simp [isUnion]

theorem sizeOf_lt_of_mem_params {b : Builtin Ty} {t : Ty} (h : t ∈ b.params) :
    sizeOf t < sizeOf (builtin b) := by
  have := List.sizeOf_lt_of_mem h
  cases b
  simp only [builtin.sizeOf_spec, Builtin.mk.sizeOf_spec] at *
  omega

theorem sizeOf_ret_lt (b : Builtin Ty) : sizeOf b.ret < sizeOf (builtin b) := by
  cases b
  simp only [builtin.sizeOf_spec, Builtin.mk.sizeOf_spec]
  omega

end Ty

end Credence

import Credence.Types.Union

namespace Credence

namespace Container

/-- Adds an element, or a key with a value, unless the kind keeps it once and has it already. What
is undefined is not added; a key without a value has any. -/
def pushWith (c : Container Ty) (elt : Ty) (value? : Option Ty) (prob : Float) : Container Ty :=
  if elt.isUndefined then c
  else
    match c.kind with
    | .tuple => { c with elts := c.elts ++ [elt], probs := c.probs ++ [prob] }
    | .list | .set =>
      if elt.among c.elts then c
      else { c with elts := c.elts ++ [elt], probs := c.probs ++ [prob] }
    | .dict =>
      let value := value?.getD .any
      if c.pairs.any fun (k, v) => k.alike elt && v.alike value then c
      else
        { c with
          elts := c.elts ++ [elt], values := c.values ++ [value], probs := c.probs ++ [prob] }

def push (c : Container Ty) (elt : Ty) (value? : Option Ty := none) : Container Ty :=
  c.pushWith elt value? 1.0

def pushKnown (c : Container Ty) (elt : Ty) : Container Ty :=
  if elt.isUnknown then c else c.push elt

def pushPair (c : Container Ty) (key value : Ty) : Container Ty :=
  if key.isUnknown && value.isUnknown then c else c.push key (some value)

/-- A container of elements with probabilities, all certain if their number is wrong. -/
def ofWeighted (kind : ContainerKind) (elts : List Ty) (probs : List Float) : Container Ty :=
  let probs := if probs.length == elts.length then probs else List.replicate elts.length 1.0
  (elts.zip probs).foldl (fun c item => c.pushWith item.1 none item.2) { kind }

def ofElts (kind : ContainerKind) (elts : List Ty) : Container Ty :=
  elts.foldl (fun c elt => c.push elt) { kind }

def ofPairs (keys values : List Ty) : Container Ty :=
  (keys.zip values).foldl (fun c item => c.push item.1 (some item.2)) { kind := .dict }

def elementType (c : Container Ty) : Ty :=
  .oneOf c.elts (some c.probs)

def valueType (c : Container Ty) : Ty :=
  if c.kind == .dict then .oneOf c.values (some c.probs) else .any

/-- The model with all elements of another added. A tuple that takes in something else becomes a
list; a dict takes in dicts only. -/
def extended (c other : Container Ty) : Container Ty :=
  if c.kind == .dict then
    if other.kind == .dict then
      other.pairs.foldl (fun c item => c.push item.1 (some item.2)) c
    else c
  else
    let start := if c.kind == .tuple && other.kind != .tuple then { c with kind := .list } else c
    other.elts.foldl (fun c elt => c.push elt) start

end Container

namespace Ty

def listOf (elts : List Ty) : Ty :=
  container (.ofElts .list elts)

def setOf (elts : List Ty) : Ty :=
  container (.ofElts .set elts)

def tupleOf (elts : List Ty) : Ty :=
  container (.ofElts .tuple elts)

def dictOf (keys values : List Ty) : Ty :=
  container (.ofPairs keys values)

def elementType : Ty → Ty
  | container c => c.elementType
  | str => str
  | bytes => int
  | union u => oneOf (u.elts.attach.map fun ⟨t, _⟩ => t.elementType) (some u.probs)
  | _ => any
termination_by t => sizeOf t
decreasing_by exact sizeOf_lt_of_mem_union ‹_›

end Ty

end Credence

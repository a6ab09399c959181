import Credence.Arena.Display
import Credence.Arena.Subtype
import Credence.Builtin.Member
import Credence.Fault
import Credence.Report.Diagnostic

namespace Credence.Arena

def isSpecialName (name : String) : Bool :=
  4 < name.utf8ByteSize && "__".toList.isPrefixOf name.toList && "__".toList.isSuffixOf name.toList

structure Reading where
  type : Ty
  found : Bool
  findings : List Finding := []
  arena : Arena

def hit (a : Arena) (type : Ty) : Reading :=
  { type, found := true, arena := a }

def miss (a : Arena) (findings : List Finding := []) : Reading :=
  { type := .any, found := false, findings, arena := a }

def specialCallable (name : String) : Ty :=
  .builtin ⟨name, [.any], .any⟩

def missingOn (a : Arena) (t : Ty) (name : String) (confidence : Float) : Finding :=
  ⟨.attributeError, name, errorProbability confidence, a.display t ++ " has no attribute " ++ name⟩

def readClass (a : Arena) (id : ClassId) (name : String) (confidence : Float) : Reading :=
  if ["__name__", "__qualname__", "__module__"].contains name then a.hit .str
  else
    let (slot?, a) := a.classLookup id name
    match slot?, Builtin.objectMethod? name with
    | some slot, _ => a.hit slot.type
    | none, some method => a.hit method
    | none, none =>
      let info := a.classAt id
      if info.name.isSome && !isSpecialName name && !info.hasUnknownBase then
        a.miss [⟨.classAttributeError, name, errorProbability confidence,
          "class " ++ a.className id ++ " has no attribute " ++ name⟩]
      else a.miss

/-- Reads an attribute of an object. After a miss the attribute is there, with any type, so that it
is told once only. -/
def readObject (a : Arena) (id : ObjectId) (name : String) (confidence : Float) : Reading :=
  let cls := a.classOf id
  if name == "__class__" then a.hit (.classObj cls)
  else
    let (slot?, a) := a.objectLookup id name
    match slot? with
    | some (.function f) =>
      match (a.functionAt f).kind with
      | .ordinary => a.hit (.method id f)
      | .classMethod | .staticMethod => a.hit (.function f)
    | some (.value t) => a.hit (if t.isUndefined then .any else t)
    | none =>
      match Builtin.objectMethod? name with
      | some method => a.hit method
      | none =>
        if isSpecialName name then a.miss
        else
          let info := a.classAt cls
          let findings :=
            if info.name.isSome && !info.hasUnknownBase then
              [⟨.attributeError, name, errorProbability confidence,
                a.className cls ++ " has no attribute " ++ name⟩]
            else []
          (a.putOverlay id name .any).miss findings

def readSingle (a : Arena) (t : Ty) (name : String) (confidence : Float) : Reading :=
  match t with
  | .prim p =>
    match p.member? name with
    | some member => a.hit member
    | none =>
      if isSpecialName name then a.hit (specialCallable name)
      else if p == .noneType then a.miss
      else a.miss [a.missingOn t name confidence]
  | .container c =>
    match c.member? name with
    | some member => a.hit member
    | none =>
      if isSpecialName name then a.hit (specialCallable name)
      else a.miss [a.missingOn t name confidence]
  | .classObj id => a.readClass id name confidence
  | .object id => a.readObject id name confidence
  | .function _ | .method _ _ =>
    match name with
    | "__name__" | "__qualname__" | "__module__" => a.hit .str
    | "__call__" => a.hit t
    | _ => a.hit ((Builtin.objectMethod? name).getD .any)
  | .module id =>
    if name == "__name__" || name == "__file__" then a.hit .str
    else
      match (a.moduleAt id).exports.get? name with
      | some exported => a.hit exported
      | none => a.miss [a.missingOn t name confidence]
  | .any | .undefined | .builtin _ | .union _ => a.hit .any

/-- Reads an attribute. An alternative of a union is read with its own probability, and the
attribute is found if one alternative has it. -/
def readAttribute (a : Arena) (t : Ty) (name : String) (confidence : Float) : Reading :=
  if t.isUnknown then a.hit .any
  else if name == "__doc__" then a.hit .str
  else
    match t with
    | .union u =>
      let start : List Ty × List Float × Reading :=
        ([], [], { type := .any, found := false, arena := a })
      let (types, probs, last) := u.items.attach.foldl (fun (types, probs, last) ⟨(t, p), _⟩ =>
        let next := readAttribute last.arena t name p
        (types ++ [next.type], probs ++ [p],
          { next with found := last.found || next.found
                      findings := last.findings ++ next.findings })) start
      { last with type := .oneOf types (some probs) }
    | _ => a.readSingle t name confidence
termination_by sizeOf t
decreasing_by
  rename_i h
  exact Ty.sizeOf_lt_of_mem_union (List.of_mem_zip h).1

def hasAttribute (a : Arena) (t : Ty) (name : String) : Bool × Arena :=
  match t with
  | .any | .undefined | .builtin _ => (true, a)
  | .union u =>
    u.elts.attach.foldl (fun (found, a) ⟨t, _⟩ =>
      if found then (found, a) else hasAttribute a t name) (false, a)
  | .prim p => ((p.member? name).isSome, a)
  | .container c => ((c.member? name).isSome, a)
  | .classObj id =>
    let (slot?, a) := a.classLookup id name
    (slot?.isSome, a)
  | .object id =>
    let (slot?, a) := a.objectLookup id name
    (slot?.isSome, a)
  | .function _ | .method _ _ => (name == "__name__" || name == "__call__", a)
  | .module id => ((a.moduleAt id).exports.contains name, a)
termination_by sizeOf t
decreasing_by exact Ty.sizeOf_lt_of_mem_union ‹_›

/-- What an attribute holds after a write: a type that does not fit the old one joins it. -/
def merged (a : Arena) (old? : Option Ty) (value : Ty) : Ty :=
  match old? with
  | some old =>
    if !old.isUnknown && !a.isSubtype value old then .oneOf [old, value] else value
  | none => value

def isSealed : Ty → Bool
  | .prim _ | .container _ | .builtin _ => true
  | _ => false

/-- Writes an attribute. Builtin values refuse it; in a union they are left out. -/
def setAttribute (a : Arena) (t : Ty) (name : String) (value : Ty) : Except Cause Unit × Arena :=
  match t with
  | .any | .undefined | .function _ | .method _ _ | .module _ => (.ok (), a)
  | .union u =>
    u.elts.attach.foldl (fun (written, a) ⟨t, _⟩ =>
      match written with
      | .error cause => (.error cause, a)
      | .ok () => if isSealed t then (.ok (), a) else setAttribute a t name value) (.ok (), a)
  | .object id =>
    let (slot?, a) := a.objectLookup id name
    (.ok (), a.putOverlay id name (a.merged (slot?.map Slot.type) value))
  | .classObj id =>
    let (slot?, a) := a.classLookup id name
    (.ok (), a.putMember id name (.ofType (a.merged (slot?.map Slot.type) value)))
  | .prim _ | .container _ | .builtin _ => (.error (.cannotSetAttribute name (a.display t)), a)
termination_by sizeOf t
decreasing_by exact Ty.sizeOf_lt_of_mem_union ‹_›

def writeAttribute (a : Arena) (t : Ty) (name : String) (value : Ty) : Except Cause Arena :=
  match a.setAttribute t name value with
  | (.ok (), written) => .ok written
  | (.error cause, _) => .error cause

def deleteAttribute (a : Arena) (t : Ty) (name : String) : Bool × Arena :=
  match t with
  | .object id =>
    ((a.objectAt id).overlay.contains name,
      a.modifyObject id fun o => { o with overlay := o.overlay.erase name })
  | .classObj id =>
    ((a.classAt id).attributes.contains name,
      a.modifyClass id fun c => { c with attributes := c.attributes.erase name })
  | _ => (false, a)

def replaceAttribute (a : Arena) (t : Ty) (name : String) (value : Ty) : Arena :=
  match t with
  | .object id => a.putOverlay id name value
  | .classObj id => a.putMember id name (.ofType value)
  | _ => a

end Credence.Arena

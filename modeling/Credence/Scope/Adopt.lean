import Credence.Fault
import Credence.Scope.World

namespace Credence

/-- A world that takes entries in, with the entries of the other world that were copied so far. -/
structure Adoption where
  arena : Arena
  scopes : Scopes
  classes : List (ClassId × ClassId) := []
  objects : List (ObjectId × ObjectId) := []
  functions : List (FunctionId × FunctionId) := []
  modules : List (ModuleId × ModuleId) := []
  copied : List (ScopeId × ScopeId) := []

abbrev AdoptM := StateT Adoption (Except Stop)

namespace Adoption

structure Copier where
  cls : ClassId → AdoptM ClassId
  object : ObjectId → AdoptM ObjectId
  function : FunctionId → AdoptM FunctionId
  module : ModuleId → AdoptM ModuleId
  scope : ScopeId → AdoptM ScopeId

variable {α : Type}

def withArena (f : Arena → α × Arena) : AdoptM α :=
  modifyGet fun s =>
    let (x, arena) := f s.arena
    (x, { s with arena })

def modifyArena (f : Arena → Arena) : AdoptM Unit :=
  modify fun s => { s with arena := f s.arena }

section Entries

variable (source : World) (copier : Copier)

def adopt (t : Ty) : AdoptM Ty := do
  match t with
  | .any | .undefined | .prim _ | .builtin _ => return t
  | .container c =>
    let elts ← c.elts.attach.mapM fun ⟨t, _⟩ => adopt t
    let values ← c.values.attach.mapM fun ⟨t, _⟩ => adopt t
    return .container { c with elts, values }
  | .union u =>
    let elts ← u.elts.attach.mapM fun ⟨t, _⟩ => adopt t
    return .union (.ofList elts (some u.probs))
  | .classObj id => return .classObj (← copier.cls id)
  | .object id => return .object (← copier.object id)
  | .function id => return .function (← copier.function id)
  | .method object function =>
    let object ← copier.object object
    return .method object (← copier.function function)
  | .module id => return .module (← copier.module id)
termination_by sizeOf t
decreasing_by
  · exact Ty.sizeOf_lt_of_mem_elts ‹_›
  · exact Ty.sizeOf_lt_of_mem_values ‹_›
  · exact Ty.sizeOf_lt_of_mem_union ‹_›

def adoptSlot : Slot → AdoptM Slot
  | .function id => return .function (← copier.function id)
  | .value t => return .value (← adopt copier t)

/-- Copies a class. Its bases come first, so that they are older than it. -/
def copyClass (id : ClassId) : AdoptM ClassId := do
  if let some copy := (← get).classes.lookup id then return copy
  let info := source.arena.classAt id
  let bases ← info.bases.mapM copier.cls
  if let some copy := (← get).classes.lookup id then return copy
  let copy ← withArena (·.addClass
    { name := info.name, bases, hasUnknownBase := info.hasUnknownBase
      isDecorated := info.isDecorated, line := info.line, file := info.file })
  modify fun s => { s with classes := (id, copy) :: s.classes }
  let attributes ← info.attributes.mapM (adoptSlot copier)
  modifyArena (·.modifyClass copy fun c => { c with attributes })
  return copy

def copyObject (id : ObjectId) : AdoptM ObjectId := do
  if let some copy := (← get).objects.lookup id then return copy
  let info := source.arena.objectAt id
  let cls ← copier.cls info.cls
  let copy ← withArena (·.addObject cls)
  modify fun s => { s with objects := (id, copy) :: s.objects }
  let overlay ← info.overlay.mapM (adopt copier)
  modifyArena (·.modifyObject copy fun o => { o with overlay })
  return copy

def copyParam (p : ParamInfo) : AdoptM ParamInfo := do
  let ascribed ← p.ascribed.mapM (adopt copier)
  let default ← p.default.mapM (adopt copier)
  return { p with ascribed, default }

def copySignature (signature : Signature) : AdoptM Signature := do
  let args ← signature.args.mapM (copyParam copier)
  let vararg ← signature.vararg.mapM (copyParam copier)
  let kwonly ← signature.kwonly.mapM (copyParam copier)
  let kwarg ← signature.kwarg.mapM (copyParam copier)
  return { args, vararg, kwonly, kwarg }

def copyFunction (id : FunctionId) : AdoptM FunctionId := do
  if let some copy := (← get).functions.lookup id then return copy
  let info := source.arena.functionAt id
  let copy ← withArena (·.addFunction
    { info with calls := [], lastReturn := none, owner := none, captured := Scopes.global })
  modify fun s => { s with functions := (id, copy) :: s.functions }
  let signature ← copySignature copier info.signature
  let declaredReturn ← info.declaredReturn.mapM (adopt copier)
  let lastReturn ← info.lastReturn.mapM (adopt copier)
  let owner ← info.owner.mapM copier.cls
  let captured ← copier.scope info.captured
  modifyArena (·.modifyFunction copy fun f =>
    { f with signature, declaredReturn, lastReturn, owner, captured })
  return copy

def copyModule (id : ModuleId) : AdoptM ModuleId := do
  if let some copy := (← get).modules.lookup id then return copy
  let info := source.arena.moduleAt id
  let copy ← withArena (·.addModule { name := info.name })
  modify fun s => { s with modules := (id, copy) :: s.modules }
  let exports ← info.exports.mapM (adopt copier)
  modifyArena (·.modifyModule copy fun m => { m with exports })
  return copy

def copyBinding (binding : Binding) : AdoptM Binding := do
  return { binding with type := ← adopt copier binding.type }

def copyScope (id : ScopeId) : AdoptM ScopeId := do
  if id == Scopes.global then return Scopes.global
  if let some copy := (← get).copied.lookup id then return copy
  let scope := source.scopes.scopeAt id
  let copy ← modifyGet fun s =>
    let (copy, scopes) := s.scopes.touch.alloc { name := scope.name }
    (copy, { s with scopes, copied := (id, copy) :: s.copied })
  let parent ← scope.parent.mapM copier.scope
  let bindings ← scope.bindings.mapM (copyBinding copier)
  modify fun s =>
    { s with scopes := (s.scopes.modifyScope copy fun c => { c with parent, bindings }).touch }
  return copy

end Entries

def copierUpTo (source : World) : Nat → Copier
  | 0 =>
    { cls := fun _ => throw .exhausted
      object := fun _ => throw .exhausted
      function := fun _ => throw .exhausted
      module := fun _ => throw .exhausted
      scope := fun _ => throw .exhausted }
  | n + 1 =>
    { cls := fun id => copyClass source (copierUpTo source n) id
      object := fun id => copyObject source (copierUpTo source n) id
      function := fun id => copyFunction source (copierUpTo source n) id
      module := fun id => copyModule source (copierUpTo source n) id
      scope := fun id => copyScope source (copierUpTo source n) id }

end Adoption

def World.entryCount (w : World) : Nat :=
  w.arena.classes.size + w.arena.objects.size + w.arena.functions.size + w.arena.modules.size +
    w.scopes.all.size

/-- Copies the entries of a world. Between an entry and the next one that is new lie at most the
classes that wait for their bases, so the square of the number of entries is fuel enough. -/
def Adoption.copier (source : World) : Adoption.Copier :=
  let count := source.entryCount + 4
  copierUpTo source (count * count)

end Credence

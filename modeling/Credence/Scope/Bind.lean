import Credence.Arena.Display
import Credence.Arena.Subtype
import Credence.Report.Diagnostic
import Credence.Scope.Basic

namespace Credence.Scopes

def target (s : Scopes) (name : String) : ScopeId :=
  (s.here.redirects.get? name).getD s.current

def bind (s : Scopes) (id : ScopeId) (name : String) (binding : Binding) : Scopes :=
  (s.modifyScope id fun scope =>
    { scope with bindings := scope.bindings.insert name binding }).touch

def set (s : Scopes) (name : String) (type : Ty) (confidence : Float) : Scopes :=
  s.bind (s.target name) name { type, confidence }

/-- The visible type of a name, and whether the given scope binds it itself. -/
def visible? (s : Scopes) (id : ScopeId) (name : String) : Option (Ty × Bool) :=
  match (s.scopeAt id).bindings.get? name with
  | some binding => some (binding.type, true)
  | none => (s.lookup name).map fun binding => (binding.type, false)

/-- The type to bind and what is to be reported. If the new type does not fit, a binding of the same
scope keeps both types, and a binding of an inner scope has the new one. -/
def rebound (s : Scopes) (a : Arena) (id : ScopeId) (name : String) (value : Ty)
    (confidence : Float) : Ty × List Finding :=
  match s.visible? id name with
  | none => (value, [])
  | some (old, sameScope) =>
    if old.isUnknown || old.isNone || value.isUnknown || a.isSubtype value old then (value, [])
    else
      let finding : Finding :=
        ⟨.overrideTypeError, name, errorProbability confidence,
          name ++ " of type " ++ a.display old ++ " is rebound to " ++ a.display value⟩
      (if sameScope then .oneOf [old, value] else value, [finding])

def add (s : Scopes) (a : Arena) (name : String) (value : Ty) (confidence : Float) :
    List Finding × Scopes :=
  let id := s.target name
  let (type, findings) := s.rebound a id name value confidence
  (findings, s.bind id name { type, confidence })

/-- Binds a name with an annotation. A value that does not fit is reported, and then, as for an
unknown value or none, the annotation counts. -/
def addAscribed (s : Scopes) (a : Arena) (name : String) (ascribed value : Ty)
    (confidence : Float) : List Finding × Scopes :=
  if value.isUnknown || value.isNone then s.add a name ascribed confidence
  else if a.isSubtype value ascribed then s.add a name value confidence
  else
    let finding : Finding :=
      ⟨.valueAnnotationMismatch, name, errorProbability confidence,
        name ++ " is annotated " ++ a.display ascribed ++ " but assigned " ++ a.display value⟩
    let (findings, s) := s.add a name ascribed confidence
    (finding :: findings, s)

def narrow (s : Scopes) (name : String) (type : Ty) : Scopes :=
  s.bind s.current name { type, confidence := 1.0, narrowed := true }

/-- Replaces the type of a name where it is bound and keeps its confidence. -/
def update (s : Scopes) (name : String) (type : Ty) : Scopes :=
  match (s.here.redirects.get? name).or (s.defining? name) with
  | some id =>
    let confidence := (((s.scopeAt id).bindings.get? name).map (·.confidence)).getD 1.0
    s.bind id name { type, confidence }
  | none => s.set name type 1.0

def remove (s : Scopes) (name : String) : Bool × Scopes :=
  match s.defining? name with
  | some id =>
    (true, (s.modifyScope id fun scope =>
      { scope with bindings := scope.bindings.erase name }).touch)
  | none => (false, s)

def redirect (s : Scopes) (name : String) (id : ScopeId) : Scopes :=
  s.modifyScope s.current fun scope =>
    { scope with redirects := scope.redirects.insert name id }

def declareGlobal (s : Scopes) (name : String) : Scopes :=
  s.redirect name s.moduleScope

/-- Later bindings of the name go to the nearest scope around the current one that binds it; the
outermost one does not count. -/
def declareNonlocal (s : Scopes) (name : String) : Scopes :=
  let around := (s.here.parent.map s.chain).getD []
  match around.find? fun id => id != global && (s.scopeAt id).bindings.contains name with
  | some id => s.redirect name id
  | none => s

def mergeBinding (a : Arena) (s : Scopes) (name : String) (binding : Binding) : Scopes :=
  let type :=
    match s.lookup name with
    | some existing =>
      if !existing.type.isUnknown && !a.isSubtype binding.type existing.type then
        .oneOf [existing.type, binding.type]
      else binding.type
    | none => binding.type
  s.bind (s.target name) name { type, confidence := binding.confidence }

/-- Leaves a branch. Its bindings merge into the scope around it, except for what tests have
shown. -/
def exitBranch (s : Scopes) (a : Arena) : Scopes :=
  match s.here.parent with
  | none => s
  | some parent =>
    let bindings := s.here.bindings.entries.filter fun entry => !entry.2.narrowed
    (bindings.foldl (fun s entry => mergeBinding a s entry.1 entry.2)
      { s with current := parent }).touch

end Credence.Scopes

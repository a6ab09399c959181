import Credence.Arena.Inherit

namespace Credence

structure Binding where
  type : Ty
  confidence : Float
  narrowed : Bool := false

structure Scope where
  name : String
  bindings : Table Binding := {}
  parent : Option ScopeId := none
  /-- Names that are bound in another scope, by a declaration. -/
  redirects : Table ScopeId := {}
deriving Inhabited

structure Scopes where
  all : Array Scope := #[{ name := "__global__" }]
  /-- Where global declarations lead. -/
  module : Option ScopeId := none
  current : ScopeId := ⟨0⟩
  saved : List ScopeId := []
  generation : Nat := 0

instance : Inhabited Scopes :=
  ⟨{}⟩

namespace Scopes

def global : ScopeId :=
  ⟨0⟩

def moduleScope (s : Scopes) : ScopeId :=
  s.module.getD global

def scopeAt (s : Scopes) (id : ScopeId) : Scope :=
  s.all.getD id.val default

def here (s : Scopes) : Scope :=
  s.scopeAt s.current

def touch (s : Scopes) : Scopes :=
  { s with generation := s.generation + 1 }

def modifyScope (s : Scopes) (id : ScopeId) (f : Scope → Scope) : Scopes :=
  { s with all := s.all.modify id.val f }

def alloc (s : Scopes) (scope : Scope) : ScopeId × Scopes :=
  (⟨s.all.size⟩, { s with all := s.all.push scope })

def enter (s : Scopes) (name : String) : ScopeId × Scopes :=
  let (id, s) := s.alloc { name, parent := some s.current }
  (id, { s with current := id }.touch)

def exit (s : Scopes) : Scopes :=
  match s.here.parent with
  | some parent => { s with current := parent }.touch
  | none => s

/-- Goes to a copy of the captured scope in which the parameters are bound, so that no two calls
share their variables. -/
def enterFunction (s : Scopes) (name : String) (captured : ScopeId)
    (params : List (String × Ty)) : ScopeId × Scopes :=
  let outer := s.scopeAt captured
  let bound := params.map fun (param, type) => (param, { type, confidence := 1.0 : Binding })
  let (id, s) := s.alloc
    { outer with name, redirects := {}, bindings := outer.bindings.insertMany bound }
  (id, { s with saved := s.current :: s.saved, current := id }.touch)

def exitFunction (s : Scopes) : Scopes :=
  match s.saved with
  | previous :: saved => { s with current := previous, saved }.touch
  | [] => s

/-- Saves the current scope and goes to another. -/
def goTo (s : Scopes) (id : ScopeId) : Scopes :=
  { s with saved := s.current :: s.saved, current := id }.touch

def setModule (s : Scopes) (id : ScopeId) : Scopes :=
  { s with module := some id }

def walk (s : Scopes) : Nat → ScopeId → List ScopeId
  | 0, _ => []
  | steps + 1, id =>
    id :: match (s.scopeAt id).parent with
      | some parent => s.walk steps parent
      | none => []

def chain (s : Scopes) (start : ScopeId) : List ScopeId :=
  s.walk s.all.size start

def lookupFrom (s : Scopes) (start : ScopeId) (name : String) : Option Binding :=
  (s.chain start).findSome? fun id => (s.scopeAt id).bindings.get? name

/-- The binding of a name. A declared name is looked for where the declaration leads first. -/
def lookup (s : Scopes) (name : String) : Option Binding :=
  match (s.here.redirects.get? name).bind fun id => (s.scopeAt id).bindings.get? name with
  | some binding => some binding
  | none => s.lookupFrom s.current name

def defining? (s : Scopes) (name : String) : Option ScopeId :=
  (s.chain s.current).find? fun id => (s.scopeAt id).bindings.contains name

/-- The type of a name, anything if it is not bound. -/
def find (s : Scopes) (name : String) : Ty :=
  ((s.lookup name).map (·.type)).getD .any

def bindsHere (s : Scopes) (name : String) : Bool :=
  s.here.bindings.contains name

end Scopes

def splitAt (separator : Char) (text : List Char) : List (List Char) :=
  text.foldr (fun c parts =>
    if c == separator then [] :: parts
    else
      match parts with
      | part :: rest => (c :: part) :: rest
      | [] => [[c]]) [[]]

def dottedParts (name : String) : List String :=
  (splitAt '.' name.toList).map String.ofList

def Arena.component (a : Arena) (t : Ty) (part : String) : Ty × Arena :=
  match t with
  | .module id => (((a.moduleAt id).exports.get? part).getD .any, a)
  | .classObj id =>
    let (slot?, a) := a.classLookup id part
    ((slot?.map Slot.type).getD .any, a)
  | .object id =>
    let (slot?, a) := a.objectLookup id part
    ((slot?.map Slot.type).getD .any, a)
  | _ => (.any, a)

def Scopes.findDotted (s : Scopes) (a : Arena) (name : String) : Ty × Arena :=
  match dottedParts name with
  | [] => (.any, a)
  | first :: rest => rest.foldl (fun (t, a) part => a.component t part) (s.find first, a)

end Credence

import Credence.Table
import Credence.Tree.Stmt
import Credence.Types.Container

namespace Credence

inductive Slot where
  | value (type : Ty)
  | function (id : FunctionId)

namespace Slot

def type : Slot → Ty
  | value t => t
  | function id => .function id

def ofType : Ty → Slot
  | .function id => function id
  | t => value t

theorem type_ofType (t : Ty) : (ofType t).type = t := by
  cases t <;> rfl

end Slot

structure ClassInfo where
  name : Option String
  bases : List ClassId := []
  hasUnknownBase : Bool := false
  attributes : Table Slot := {}
  /-- The members of the bases, once they have been merged. -/
  inherited : Option (Table Slot) := none
  isDecorated : Bool := false
  line : Nat := 0
  file : String := ""

instance : Inhabited ClassInfo :=
  ⟨{ name := none }⟩

structure ObjectInfo where
  cls : ClassId
  /-- Attributes written on the object; others are read from its class. -/
  overlay : Table Ty := {}
deriving Inhabited

structure ParamInfo where
  name : String
  ascribed : Option Ty := none
  default : Option Ty := none

structure Signature where
  args : List ParamInfo := []
  vararg : Option ParamInfo := none
  kwonly : List ParamInfo := []
  kwarg : Option ParamInfo := none

def Signature.named (s : Signature) : List ParamInfo :=
  s.args ++ s.kwonly

def Signature.all (s : Signature) : List ParamInfo :=
  s.args ++ s.vararg.toList ++ s.kwonly ++ s.kwarg.toList

inductive FunctionBody where
  | statements (definition : FunctionDef Stmt)
  | lambda (value : Expr)

/-- What a function stored on a class receives first when it is read through an object. -/
inductive MethodKind where
  | ordinary | classMethod | staticMethod
deriving DecidableEq, Inhabited

/-- What the result of a call depends on: the arguments and what the body reads from outside. -/
structure CallKey where
  arguments : List (String × Ty)
  captured : List (Option Ty)

def CallKey.agrees (a b : CallKey) : Bool :=
  listAgree (fun x y => x.1 == y.1 && x.2.identical y.2) a.arguments b.arguments &&
    listAgree sameOption a.captured b.captured
where
  sameOption : Option Ty → Option Ty → Bool
    | some x, some y => x.identical y
    | none, none => true
    | _, _ => false

structure FunctionInfo where
  name : String
  signature : Signature := {}
  declaredReturn : Option Ty := none
  body : FunctionBody
  captured : ScopeId
  owner : Option ClassId := none
  kind : MethodKind := .ordinary
  hasReturn : Bool := false
  alwaysReturns : Bool := false
  isStub : Bool := false
  isGenerator : Bool := false
  reads : List String := []
  lastReturn : Option Ty := none
  calls : List (CallKey × Ty) := []
  line : Nat := 0
  file : String := ""

instance : Inhabited FunctionInfo :=
  ⟨{ name := "", body := .lambda default, captured := ⟨0⟩ }⟩

namespace FunctionInfo

/-- A declared return type that says something. -/
def declared? (f : FunctionInfo) : Option Ty :=
  f.declaredReturn.filter fun t => !t.isUnknown

def cached? (f : FunctionInfo) (key : CallKey) : Option Ty :=
  (f.calls.find? fun call => call.1.agrees key).map (·.2)

def remember (f : FunctionInfo) (key : CallKey) (result : Ty) : FunctionInfo :=
  { f with
    lastReturn := some result
    calls := (f.calls.filter fun call => !call.1.agrees key) ++ [(key, result)] }

end FunctionInfo

structure ModuleInfo where
  name : String
  exports : Table Ty := {}
deriving Inhabited

structure Arena where
  classes : Array ClassInfo := #[]
  objects : Array ObjectInfo := #[]
  functions : Array FunctionInfo := #[]
  modules : Array ModuleInfo := #[]
  generation : Nat := 0
deriving Inhabited

namespace Arena

def classAt (a : Arena) (id : ClassId) : ClassInfo :=
  a.classes.getD id.val default

def objectAt (a : Arena) (id : ObjectId) : ObjectInfo :=
  a.objects.getD id.val default

def functionAt (a : Arena) (id : FunctionId) : FunctionInfo :=
  a.functions.getD id.val default

def moduleAt (a : Arena) (id : ModuleId) : ModuleInfo :=
  a.modules.getD id.val default

def classOf (a : Arena) (id : ObjectId) : ClassId :=
  (a.objectAt id).cls

def addClass (a : Arena) (info : ClassInfo) : ClassId × Arena :=
  (⟨a.classes.size⟩, { a with classes := a.classes.push info, generation := a.generation + 1 })

def addObject (a : Arena) (cls : ClassId) : ObjectId × Arena :=
  (⟨a.objects.size⟩,
    { a with objects := a.objects.push { cls }, generation := a.generation + 1 })

def addFunction (a : Arena) (info : FunctionInfo) : FunctionId × Arena :=
  (⟨a.functions.size⟩,
    { a with functions := a.functions.push info, generation := a.generation + 1 })

def addModule (a : Arena) (info : ModuleInfo) : ModuleId × Arena :=
  (⟨a.modules.size⟩, { a with modules := a.modules.push info, generation := a.generation + 1 })

def modifyClass (a : Arena) (id : ClassId) (f : ClassInfo → ClassInfo) : Arena :=
  { a with classes := a.classes.modify id.val f, generation := a.generation + 1 }

def modifyObject (a : Arena) (id : ObjectId) (f : ObjectInfo → ObjectInfo) : Arena :=
  { a with objects := a.objects.modify id.val f, generation := a.generation + 1 }

def modifyFunction (a : Arena) (id : FunctionId) (f : FunctionInfo → FunctionInfo) : Arena :=
  { a with functions := a.functions.modify id.val f, generation := a.generation + 1 }

def modifyModule (a : Arena) (id : ModuleId) (f : ModuleInfo → ModuleInfo) : Arena :=
  { a with modules := a.modules.modify id.val f, generation := a.generation + 1 }

def putOverlay (a : Arena) (id : ObjectId) (name : String) (t : Ty) : Arena :=
  a.modifyObject id fun o => { o with overlay := o.overlay.insert name t }

def putMember (a : Arena) (id : ClassId) (name : String) (slot : Slot) : Arena :=
  a.modifyClass id fun c => { c with attributes := c.attributes.insert name slot }

def className (a : Arena) (id : ClassId) : String :=
  (a.classAt id).name.getD "<class>"

end Arena

end Credence

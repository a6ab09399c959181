import Credence.Builtin.Member

namespace Credence.Builtin

def firstElement (args : List Ty) : Ty :=
  (args.head?.map Ty.elementType).getD .any

def knownElements : Ty → List Ty
  | .any => []
  | t => [t]

/-- The result of a call that depends on the types of the arguments. -/
def refine? (name : String) (args : List Ty) : Option Ty :=
  match name with
  | "list" | "sorted" | "reversed" => some (.listOf (knownElements (firstElement args)))
  | "set" | "frozenset" => some (.setOf (knownElements (firstElement args)))
  | "tuple" =>
    match args with
    | .container c :: _ => some (.tupleOf c.elts)
    | t :: _ => some (.tupleOf (knownElements t.elementType))
    | [] => some (.tupleOf [])
  | "range" => some (.listOf [.int])
  | "enumerate" => some (.listOf [.tupleOf [.int, firstElement args]])
  | "zip" => some (.listOf [.tupleOf (args.map Ty.elementType)])
  | "dict" =>
    match args with
    | .container c :: _ => if c.kind == .dict then some (.container c) else none
    | _ => none
  | "abs" =>
    match args with
    | .prim p :: _ =>
      if !p.isNumeric then some .any else if p == .complex then some .float else some (.prim p)
    | _ :: _ => some .any
    | [] => none
  | "min" | "max" =>
    match args with
    | [] => none
    | [t] => some t.elementType
    | many => some (.oneOf many)
  | "sum" =>
    match firstElement args with
    | .prim p => if p.isNumeric then some (.prim p) else some .any
    | .any => some .int
    | _ => some .any
  | "iter" => some (args.head?.getD .any)
  | "next" => some (firstElement args)
  | _ => none

/-- The result of a call with a warning if the number of arguments is wrong. A parameter of unknown
type takes any number of them. -/
def resolve (b : Builtin Ty) (args : List Ty) : Ty × Option String :=
  match refine? b.name args with
  | some t => (t, none)
  | none =>
    if args.length != b.params.length && !b.params.any Ty.isUnknown then
      (b.ret, some ("builtin " ++ b.name ++ " called with " ++ toString args.length ++
        " arguments, expected " ++ toString b.params.length))
    else (b.ret, none)

end Credence.Builtin

import Credence.Builtin.Signature

namespace Credence

namespace Builtin

def bindings : List (String × Ty) :=
  (signatures.map fun (name, shapes) => (name, ofShapes name shapes)) ++
    [("True", .bool), ("False", .bool), ("None", .none)]

def isBuiltinName (name : String) : Bool :=
  (signatures.lookup name).isSome

def isExceptionName (name : String) : Bool :=
  isBuiltinName name &&
    (name.endsWith "Error" || name.endsWith "Exception" || name.endsWith "Warning" ||
      ["StopIteration", "StopAsyncIteration", "KeyboardInterrupt", "SystemExit",
        "GeneratorExit"].contains name)

def objectMethod? (name : String) : Option Ty :=
  (objectMethods.lookup name).map (ofShapes name)

end Builtin

def Prim.tables : Prim → SignatureTable × SignatureTable
  | .int | .bool => (Builtin.intAttributes, Builtin.intMethods)
  | .float => (Builtin.floatAttributes, Builtin.floatMethods)
  | .complex => (Builtin.floatAttributes, Builtin.complexMethods)
  | .str => ([], Builtin.strMethods)
  | .bytes => ([], Builtin.bytesMethods)
  | .noneType => ([], [])

/-- A member of a scalar value: its data first, then the methods of the kind, of sequences and of
every value. -/
def Prim.member? (p : Prim) (name : String) : Option Ty :=
  match p.tables.1.lookup name with
  | some shapes => some shapes.2.type
  | none =>
    let sequence := if p.isSequence then Builtin.sequenceMethods else []
    ((p.tables.2 ++ sequence ++ Builtin.objectMethods).lookup name).map
      (Builtin.ofShapes (p.name ++ "." ++ name))

namespace Container

def member? (c : Container Ty) (name : String) : Option Ty :=
  let element := c.elementType
  let this := Ty.container c
  let callable (params : List Ty) (ret : Ty) := some (Ty.builtin ⟨name, params, ret⟩)
  match name with
  | "__len__" => callable [] .int
  | "__contains__" => callable [.any] .bool
  | "__iter__" => callable [] this
  | _ =>
    match c.kind with
    | .tuple =>
      match name with
      | "count" | "index" => callable [.any] .int
      | "__getitem__" => callable [.any] element
      | _ => Builtin.objectMethod? name
    | .list =>
      match name with
      | "append" | "remove" | "extend" => callable [.any] .none
      | "insert" => callable [.int, .any] .none
      | "pop" | "__getitem__" => callable [.any] element
      | "index" | "count" => callable [.any] .int
      | "copy" => callable [] this
      | "sort" | "reverse" | "clear" => callable [] .none
      | _ => Builtin.objectMethod? name
    | .dict =>
      match name with
      | "keys" => callable [] (.listOf c.elts)
      | "values" => callable [] (.listOf c.values)
      | "items" => callable [] (.listOf [.tupleOf [element, c.valueType]])
      | "popitem" => callable [] (.tupleOf [element, c.valueType])
      | "get" | "pop" | "setdefault" | "__getitem__" => callable [.any] c.valueType
      | "update" => callable [.any] .none
      | "copy" => callable [] this
      | "fromkeys" => callable [.any] (.dictOf [] [])
      | "clear" => callable [] .none
      | _ => Builtin.objectMethod? name
    | .set =>
      match name with
      | "add" | "discard" | "remove" | "update" => callable [.any] .none
      | "pop" => callable [] element
      | "union" | "intersection" | "difference" | "symmetric_difference" => callable [.any] this
      | "issubset" | "issuperset" | "isdisjoint" => callable [.any] .bool
      | "copy" => callable [] this
      | "clear" => callable [] .none
      | _ => Builtin.objectMethod? name

end Container

end Credence

import Credence.Check.Session
import Credence.Grammar.Source
import Credence.Tree.Weight

namespace Credence.Check

open CheckM

def typingModules : List String :=
  ["typing.", "typing_extensions.", "collections.abc.", "collections."]

def typingName (name : String) : String :=
  match typingModules.find? fun m => m.toList.isPrefixOf name.toList with
  | some m => String.ofList (name.toList.drop m.length)
  | none => name

/-- The kind of container that a generic type stands for. -/
def genericKind? (name : String) : Option ContainerKind :=
  match ContainerKind.ofName? name with
  | some kind => some kind
  | none =>
    match name with
    | "Sequence" | "MutableSequence" | "Iterable" | "Iterator" | "Generator" | "Collection"
    | "Deque" | "deque" => some .list
    | "AbstractSet" | "MutableSet" => some .set
    | "Mapping" | "MutableMapping" | "DefaultDict" | "defaultdict" | "OrderedDict" | "Counter" =>
      some .dict
    | _ => none

def namedAscription (name : String) : CheckM Ty := do
  let short := typingName name
  match Prim.ofName? short, genericKind? short with
  | some p, _ => return .prim p
  | none, some kind => return .container { kind }
  | none, none =>
    let scopes ← getScopes
    match ← withArena fun a => scopes.findDotted a name with
    | .classObj id => standIn id
    | _ => return .any

section Forms

variable (sub : Expr → CheckM Ty)

def firstAscription (arguments : List Expr) : CheckM Ty :=
  match arguments with
  | argument :: _ => sub argument
  | [] => return .any

def genericAscription (name : String) (arguments : List Expr) : CheckM Ty := do
  let short := typingName name
  match short with
  | "Optional" => return .oneOf [← firstAscription sub arguments, .none] (some [0.5, 0.5])
  | "Union" => return .oneOf (← arguments.mapM sub)
  | "Type" | "type" =>
    match ← firstAscription sub arguments with
    | .object id => return .classObj ((← getArena).classOf id)
    | _ => return .any
  | "Annotated" | "Final" | "ClassVar" => firstAscription sub arguments
  | _ =>
    match genericKind? short with
    | some .dict =>
      let key ← firstAscription sub arguments
      let value ← firstAscription sub arguments.tail
      return .dictOf [key] [value]
    | some .tuple => return .tupleOf (← (arguments.filter (!·.isEllipsis)).mapM sub)
    | some kind => return .container (.ofElts kind [← firstAscription sub arguments])
    | none => return .any

/-- What a text declares: it is read as an annotation, and one that cannot be read declares
anything. -/
def textAscription (text : String) : CheckM Ty :=
  match Module.ofSource text "<annotation>" with
  | .error .exhausted => throw .exhausted
  | .error (.fault _) => return .any
  | .ok m =>
    match m.body with
    | s :: _ =>
      match s.form with
      | .expr e => sub e
      | _ => return .any
    | [] => return .any

def ascriptionOver (e : Expr) : CheckM Ty := do
  match e.form with
  | .noneLiteral => return .none
  | .str text => textAscription sub text
  | .name _ | .member _ _ =>
    match e.dottedName? with
    | some name => namedAscription name
    | none => return .any
  | .subscript value index =>
    match value.dottedName? with
    | some name =>
      let arguments := match index.form with
        | .tuple elts => elts
        | _ => [index]
      genericAscription sub name arguments
    | none => return .any
  | .binOp left .bitOr right =>
    let l ← sub left
    let r ← sub right
    return .oneOf [l, r]
  | _ => return .any

end Forms

def ascriptionUpTo : Nat → Expr → CheckM Ty
  | 0, _ => throw .exhausted
  | n + 1, e => ascriptionOver (ascriptionUpTo n) e

/-- The type that an annotation declares. A text in an annotation is longer than the texts in it, so
the square of the weight bounds the nesting. -/
def ascription (e : Expr) : CheckM Ty :=
  let nodes := e.weight + 2
  ascriptionUpTo (16 * nodes * nodes) e

end Credence.Check

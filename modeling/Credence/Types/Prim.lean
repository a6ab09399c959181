
namespace Credence

inductive Prim where
  | int | float | complex | bool | str | bytes | noneType
deriving DecidableEq, Inhabited

namespace Prim

def name : Prim → String
  | int => "int"
  | float => "float"
  | complex => "complex"
  | bool => "bool"
  | str => "str"
  | bytes => "bytes"
  | noneType => "None"

def ofName? : String → Option Prim
  | "int" => some int
  | "float" => some float
  | "complex" => some complex
  | "bool" => some bool
  | "str" => some str
  | "bytes" => some bytes
  | "None" | "NoneType" => some noneType
  | _ => none

theorem ofName?_name (p : Prim) : ofName? p.name = some p := by
  cases p <;> decide

def rank? : Prim → Option Nat
  | bool => some 0
  | int => some 1
  | float => some 2
  | complex => some 3
  | str | bytes | noneType => none

def isNumeric (p : Prim) : Bool :=
  p.rank?.isSome

def isSequence : Prim → Bool
  | str | bytes => true
  | _ => false

/-- Arithmetic on truth values gives integers. -/
def promote : Prim → Prim
  | bool => int
  | p => p

/-- A number fits a wider number, and bytes fit a text. -/
def fits (sub sup : Prim) : Bool :=
  sub == sup ||
    match sub.rank?, sup.rank? with
    | some i, some j => i ≤ j
    | _, _ => sub == bytes && sup == str

end Prim

inductive ContainerKind where
  | list | set | tuple | dict
deriving DecidableEq, Inhabited

namespace ContainerKind

def name : ContainerKind → String
  | list => "List"
  | set => "Set"
  | tuple => "Tuple"
  | dict => "Dict"

def ofName? : String → Option ContainerKind
  | "List" | "list" => some list
  | "Set" | "set" | "FrozenSet" | "frozenset" => some set
  | "Tuple" | "tuple" => some tuple
  | "Dict" | "dict" => some dict
  | _ => none

theorem ofName?_name (k : ContainerKind) : ofName? k.name = some k := by
  cases k <;> decide

end ContainerKind

end Credence

import Credence.Arena.Inherit
import Credence.Report.Number

namespace Credence

namespace Arena

def unionText (items : List (String × Float)) : String :=
  "ProbType\x7b" ++
    String.intercalate ","
      (items.map fun (text, prob) => text ++ ":" ++ plainNumber.render (roundTo 1000.0 prob)) ++
    "\x7d"

def oneOfText : List (String × Float) → String
  | [] => "Any"
  | [(text, _)] => text
  | items => unionText items

def display (a : Arena) : Ty → String
  | .any => "Any"
  | .undefined => "Undefined"
  | .prim p => p.name
  | .container c =>
    if c.isEmpty then c.kind.name
    else
      match c.kind with
      | .dict =>
        let keys := (Union.ofList c.elts (some c.probs)).items.attach.map fun ⟨(t, p), _⟩ =>
          (a.display t, p)
        let values := (Union.ofList c.values (some c.probs)).items.attach.map fun ⟨(t, p), _⟩ =>
          (a.display t, p)
        "Dict[" ++ oneOfText keys ++ ", " ++ oneOfText values ++ "]"
      | kind =>
        kind.name ++ "[" ++
          String.intercalate ", " (c.elts.attach.map fun ⟨t, _⟩ => a.display t) ++ "]"
  | .union u => unionText (u.items.attach.map fun ⟨(t, p), _⟩ => (a.display t, p))
  | .classObj id => "class " ++ a.className id
  | .object id => a.className (a.classOf id)
  | .function id => "def " ++ (a.functionAt id).name
  | .method _ id => "def " ++ (a.functionAt id).name
  | .builtin b => b.name ++ "()"
  | .module id => "module " ++ (a.moduleAt id).name
termination_by t => sizeOf t
decreasing_by
  · rename_i h
    have := Union.sizeOf_lt_of_mem_ofList (List.of_mem_zip h).1
    cases c
    simp only [Ty.container.sizeOf_spec, Container.mk.sizeOf_spec] at *
    omega
  · rename_i h
    have := Union.sizeOf_lt_of_mem_ofList (List.of_mem_zip h).1
    cases c
    simp only [Ty.container.sizeOf_spec, Container.mk.sizeOf_spec] at *
    omega
  · exact Ty.sizeOf_lt_of_mem_elts ‹_›
  · rename_i h
    exact Ty.sizeOf_lt_of_mem_union (List.of_mem_zip h).1

end Arena

end Credence

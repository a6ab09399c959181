import Credence.Types.Basic

namespace Credence

namespace Ty

/-- The same parts: a tuple part by part, other containers and unions by containment of as many
parts, and builtins by name. -/
def alike : Ty → Ty → Bool
  | any, any => true
  | undefined, undefined => true
  | prim p, prim q => p == q
  | container a, container b =>
    a.kind == b.kind && a.elts.length == b.elts.length &&
      match a.kind with
      | .tuple => (a.elts.zip b.elts).attach.all fun ⟨(x, y), _⟩ => alike x y
      | .list | .set => a.elts.attach.all fun ⟨x, _⟩ => b.elts.attach.any fun ⟨y, _⟩ => alike y x
      | .dict =>
        a.pairs.attach.all fun ⟨(k, v), _⟩ =>
          b.pairs.attach.any fun ⟨(k', v'), _⟩ => alike k k' && alike v v'
  | union a, union b =>
    a.elts.length == b.elts.length &&
      a.elts.attach.all fun ⟨x, _⟩ => b.elts.attach.any fun ⟨y, _⟩ => alike y x
  | classObj a, classObj b => a == b
  | object a, object b => a == b
  | function a, function b => a == b
  | method a f, method b g => a == b && f == g
  | builtin a, builtin b => a.name == b.name
  | module a, module b => a == b
  | _, _ => false
termination_by a b => sizeOf a + sizeOf b
decreasing_by
  · rename_i h
    have hx := sizeOf_lt_of_mem_elts (List.of_mem_zip h).1
    have hy := sizeOf_lt_of_mem_elts (List.of_mem_zip h).2
    omega
  · rename_i hx hy
    have hx := sizeOf_lt_of_mem_elts hx
    have hy := sizeOf_lt_of_mem_elts hy
    omega
  · rename_i h h'
    have hk := sizeOf_lt_of_mem_elts (List.of_mem_zip h).1
    have hk' := sizeOf_lt_of_mem_elts (List.of_mem_zip h').1
    omega
  · rename_i h h'
    have hv := sizeOf_lt_of_mem_values (List.of_mem_zip h).2
    have hv' := sizeOf_lt_of_mem_values (List.of_mem_zip h').2
    omega
  · rename_i hx hy
    have hx := sizeOf_lt_of_mem_union hx
    have hy := sizeOf_lt_of_mem_union hy
    omega

def among (t : Ty) (ts : List Ty) : Bool :=
  ts.any (alike · t)

end Ty

def sameNumber (x y : Float) : Bool :=
  x.toBits == y.toBits || (x.isNaN && y.isNaN)

def listAgree {α : Type} (agree : α → α → Bool) (xs ys : List α) : Bool :=
  xs.length == ys.length && (xs.zip ys).all fun (x, y) => agree x y

namespace Ty

/-- Nothing tells the types apart: neither order nor probabilities nor the signature of a builtin. -/
def identical : Ty → Ty → Bool
  | any, any => true
  | undefined, undefined => true
  | prim p, prim q => p == q
  | container a, container b =>
    a.kind == b.kind && a.elts.length == b.elts.length && a.values.length == b.values.length &&
      ((a.elts.zip b.elts).attach.all fun ⟨(x, y), _⟩ => identical x y) &&
      ((a.values.zip b.values).attach.all fun ⟨(x, y), _⟩ => identical x y) &&
      listAgree sameNumber a.probs b.probs
  | union a, union b =>
    a.elts.length == b.elts.length &&
      ((a.elts.zip b.elts).attach.all fun ⟨(x, y), _⟩ => identical x y) &&
      listAgree sameNumber a.probs b.probs
  | classObj a, classObj b => a == b
  | object a, object b => a == b
  | function a, function b => a == b
  | method a f, method b g => a == b && f == g
  | builtin a, builtin b =>
    a.name == b.name && a.params.length == b.params.length &&
      ((a.params.zip b.params).attach.all fun ⟨(x, y), _⟩ => identical x y) &&
      identical a.ret b.ret
  | module a, module b => a == b
  | _, _ => false
termination_by a b => sizeOf a + sizeOf b
decreasing_by
  · rename_i h
    have hx := sizeOf_lt_of_mem_elts (List.of_mem_zip h).1
    have hy := sizeOf_lt_of_mem_elts (List.of_mem_zip h).2
    omega
  · rename_i h
    have hx := sizeOf_lt_of_mem_values (List.of_mem_zip h).1
    have hy := sizeOf_lt_of_mem_values (List.of_mem_zip h).2
    omega
  · rename_i h
    have hx := sizeOf_lt_of_mem_union (List.of_mem_zip h).1
    have hy := sizeOf_lt_of_mem_union (List.of_mem_zip h).2
    omega
  · rename_i h
    have hx := sizeOf_lt_of_mem_params (List.of_mem_zip h).1
    have hy := sizeOf_lt_of_mem_params (List.of_mem_zip h).2
    omega
  · have hx := sizeOf_ret_lt a
    have hy := sizeOf_ret_lt b
    omega

end Ty

end Credence

import Credence.Arena.Inherit

namespace Credence.Arena

/-- Whether `sub` can stand where `sup` is expected. The unknown types fit everything in both
directions; a union fits if one of its alternatives does, on either side. A container without a
model fits, and is fit by, any of its kind. -/
def isSubtype (a : Arena) (sub sup : Ty) : Bool :=
  sub.isUnknown || sup.isUnknown ||
    match _hb : sub, _hp : sup with
    | .union u, _ => u.elts.attach.any fun ⟨t, _⟩ => a.isSubtype t sup
    | _, .union u => u.elts.attach.any fun ⟨t, _⟩ => a.isSubtype sub t
    | .prim p, .prim q => p.fits q
    | .container c, .container d =>
      c.kind == d.kind &&
        match c.kind with
        | .tuple =>
          c.elts.isEmpty || d.elts.isEmpty ||
            (c.elts.length == d.elts.length &&
              (c.elts.zip d.elts).attach.all fun ⟨(x, y), _⟩ => a.isSubtype x y)
        | .list | .set =>
          c.elts.isEmpty || d.elts.isEmpty ||
            c.elts.attach.all fun ⟨x, _⟩ => d.elts.attach.any fun ⟨y, _⟩ => a.isSubtype x y
        | .dict =>
          (c.elts.isEmpty || d.elts.isEmpty ||
            c.elts.attach.all fun ⟨x, _⟩ => d.elts.attach.any fun ⟨y, _⟩ => a.isSubtype x y) &&
          (c.values.isEmpty || d.values.isEmpty ||
            c.values.attach.all fun ⟨x, _⟩ =>
              d.values.attach.any fun ⟨y, _⟩ => a.isSubtype x y)
    | .classObj x, .classObj y => a.isSubclass x y
    | .object x, .object y => a.isSubclass (a.classOf x) (a.classOf y)
    | .object x, .classObj y => a.isSubclass (a.classOf x) y
    | .classObj x, .object y => a.isSubclass (a.classOf y) x
    | .module x, .module y => x == y
    | s, t => s.isFunctionLike && t.isFunctionLike
termination_by sizeOf sub + sizeOf sup
decreasing_by
  all_goals subst _hb
  all_goals try subst _hp
  · have := Ty.sizeOf_lt_of_mem_union ‹_ ∈ u.elts›
    omega
  · have := Ty.sizeOf_lt_of_mem_union ‹_ ∈ u.elts›
    omega
  · rename_i h
    have := Ty.sizeOf_lt_of_mem_elts (List.of_mem_zip h).1
    have := Ty.sizeOf_lt_of_mem_elts (List.of_mem_zip h).2
    omega
  · have := Ty.sizeOf_lt_of_mem_elts ‹_ ∈ c.elts›
    have := Ty.sizeOf_lt_of_mem_elts ‹_ ∈ d.elts›
    omega
  · have := Ty.sizeOf_lt_of_mem_elts ‹_ ∈ c.elts›
    have := Ty.sizeOf_lt_of_mem_elts ‹_ ∈ d.elts›
    omega
  · have := Ty.sizeOf_lt_of_mem_values ‹_ ∈ c.values›
    have := Ty.sizeOf_lt_of_mem_values ‹_ ∈ d.values›
    omega

def isConsistent (a : Arena) (x y : Ty) : Bool :=
  a.isSubtype x y || a.isSubtype y x

end Credence.Arena

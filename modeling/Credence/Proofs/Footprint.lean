import Credence.Proofs.Access

namespace Credence

/-- A class without what it keeps of its bases. -/
def ClassInfo.declared (c : ClassInfo) : ClassInfo :=
  { c with inherited := none }

namespace Arena

variable {a b c : Arena} {touched : ObjectId → Prop} {t value : Ty} {name : String}

/-- Nothing has changed but what classes keep of their bases and what is written on some objects. -/
structure Spares (touched : ObjectId → Prop) (a b : Arena) : Prop where
  functions : b.functions = a.functions
  modules : b.modules = a.modules
  classCount : b.classes.size = a.classes.size
  objectCount : b.objects.size = a.objects.size
  declared : ∀ id, (b.classAt id).declared = (a.classAt id).declared
  classOf : ∀ id, b.classOf id = a.classOf id
  objectAt : ∀ id, ¬touched id → b.objectAt id = a.objectAt id

namespace Spares

theorem refl (touched : ObjectId → Prop) (a : Arena) : a.Spares touched a where
  functions := rfl
  modules := rfl
  classCount := rfl
  objectCount := rfl
  declared _ := rfl
  classOf _ := rfl
  objectAt _ _ := rfl

theorem trans (h : a.Spares touched b) (k : b.Spares touched c) : a.Spares touched c where
  functions := k.functions.trans h.functions
  modules := k.modules.trans h.modules
  classCount := k.classCount.trans h.classCount
  objectCount := k.objectCount.trans h.objectCount
  declared id := (k.declared id).trans (h.declared id)
  classOf id := (k.classOf id).trans (h.classOf id)
  objectAt id hid := (k.objectAt id hid).trans (h.objectAt id hid)

end Spares

theorem spares_keepInherited (touched : ObjectId → Prop) (a : Arena) (id : ClassId) (merged : Table Slot) :
    a.Spares touched (a.keepInherited id merged) where
  functions := rfl
  modules := rfl
  classCount := Array.size_modify
  objectCount := rfl
  declared c := by
    rw [classAt_keepInherited]
    split <;> rfl
  classOf _ := rfl
  objectAt _ _ := rfl

theorem merging_spares (touched : ObjectId → Prop) (a : Arena) :
    Merging (a.Spares touched) fun _ _ _ => True :=
  merging_of_keep fun b id merged h => h.trans (b.spares_keepInherited touched id merged)

theorem spares_modifyObject {f : ObjectInfo → ObjectInfo} {id : ObjectId} (htouched : touched id)
    (hf : ∀ o, (f o).cls = o.cls) (a : Arena) : a.Spares touched (a.modifyObject id f) where
  functions := rfl
  modules := rfl
  classCount := rfl
  objectCount := Array.size_modify
  declared _ := rfl
  classOf o := by
    rw [Arena.classOf, objectAt_modifyObject_eq]
    split
    · exact hf _
    · rfl
  objectAt o ho := by
    rw [objectAt_modifyObject_eq]
    apply if_neg
    rintro ⟨rfl, -⟩
    exact ho htouched

namespace Spares

variable (h : a.Spares touched b)
include h

theorem classLookup (id : ClassId) (name : String) : a.Spares touched (b.classLookup id name).2 :=
  (merging_spares touched a).classLookup h id name

theorem objectLookup (id : ObjectId) (name : String) : a.Spares touched (b.objectLookup id name).2 :=
  (merging_spares touched a).objectLookup h id name

theorem putOverlay {id : ObjectId} (htouched : touched id) (name : String) (t : Ty) :
    a.Spares touched (b.putOverlay id name t) := by
  apply h.trans
  apply spares_modifyObject htouched
  exact fun _ => rfl

theorem readStep (hstep : b.ReadStep t name c) (hobject : ∀ o, t = .object o → touched o) :
    a.Spares touched c := by
  cases hstep with
  | none => exact h
  | cls id _ => exact h.classLookup id name
  | object id _ => exact h.objectLookup id name
  | miss id ht => exact (h.objectLookup id name).putOverlay (hobject id ht) name .any

theorem writeStep (hstep : b.WriteStep t name value c) (hobject : ∀ o, t = .object o → touched o)
    (hclass : ∀ id, t ≠ .classObj id) : a.Spares touched c := by
  cases hstep with
  | none => exact h
  | cls id ht => exact absurd ht (hclass id)
  | object id ht => exact (h.objectLookup id name).putOverlay (hobject id ht) name _

theorem readAttribute (hobject : ∀ o, (Ty.object o).Within t → touched o) (name : String)
    (confidence : Float) : a.Spares touched (b.readAttribute t name confidence).arena := by
  apply readAttribute_of_single _ h confidence
  intro s b c hs hstep h
  apply h.readStep hstep
  rintro o rfl
  exact hobject o hs

theorem setAttribute (hobject : ∀ o, (Ty.object o).Within t → touched o)
    (hclass : ∀ id, ¬(Ty.classObj id).Within t) (name : String) (value : Ty) :
    a.Spares touched (b.setAttribute t name value).2 := by
  apply setAttribute_of_single _ h
  intro s b c hs hstep h
  apply h.writeStep hstep
  · rintro o rfl
    exact hobject o hs
  · rintro id rfl
    exact hclass id hs

theorem replaceAttribute (hobject : ∀ o, (Ty.object o).Within t → touched o)
    (hclass : ∀ id, ¬(Ty.classObj id).Within t) (name : String) (value : Ty) :
    a.Spares touched (b.replaceAttribute t name value) := by
  cases t with
  | object id => exact h.putOverlay (hobject id .self) name value
  | classObj id => exact absurd .self (hclass id)
  | _ => exact h

theorem deleteAttribute (hobject : ∀ o, (Ty.object o).Within t → touched o)
    (hclass : ∀ id, ¬(Ty.classObj id).Within t) (name : String) :
    a.Spares touched (b.deleteAttribute t name).2 := by
  cases t with
  | object id =>
    apply h.trans
    apply spares_modifyObject (hobject id .self)
    exact fun _ => rfl
  | classObj id => exact absurd .self (hclass id)
  | _ => exact h

end Spares

/-- Access to an attribute of a value. -/
inductive Access where
  | read (t : Ty) (name : String) (confidence : Float)
  | write (t : Ty) (name : String) (value : Ty)
  | replace (t : Ty) (name : String) (value : Ty)
  | delete (t : Ty) (name : String)

namespace Access

def target : Access → Ty
  | read t _ _ | write t _ _ | replace t _ _ | delete t _ => t

def run (a : Arena) : Access → Arena
  | read t name confidence => (a.readAttribute t name confidence).arena
  | write t name value => (a.setAttribute t name value).2
  | replace t name value => a.replaceAttribute t name value
  | delete t name => (a.deleteAttribute t name).2

end Access

theorem Spares.run (h : a.Spares touched b) (access : Access)
    (hobject : ∀ o, (Ty.object o).Within access.target → touched o)
    (hclass : ∀ id, ¬(Ty.classObj id).Within access.target) : a.Spares touched (access.run b) := by
  cases access with
  | read t name confidence => exact h.readAttribute hobject name confidence
  | write t name value => exact h.setAttribute hobject hclass name value
  | replace t name value => exact h.replaceAttribute hobject hclass name value
  | delete t name => exact h.deleteAttribute hobject hclass name

theorem isSealed_iff :
    isSealed t = true ↔ (∃ p, t = .prim p) ∨ (∃ c, t = .container c) ∨ ∃ f, t = .builtin f := by
  cases t <;> simp [isSealed]

theorem run_write_of_error {cause : Cause} (h : (a.setAttribute t name value).1 = .error cause) :
    (Access.write t name value).run a = a := by
  have hsealed : isSealed t = true := (a.setAttribute_eq_error_iff t name value).1 ⟨cause, h⟩
  rw [Access.run, setAttribute_of_isSealed hsealed]

/-- Access to attributes of values of which none is a class spares the classes but for what they keep of
their bases, the functions, the modules and every object that is none of the values. A write is refused by
builtin values only, and then nothing changes. -/
theorem accesses_spare (a : Arena) (accesses : List Access)
    (h : ∀ x ∈ accesses, ∀ id, ¬(Ty.classObj id).Within x.target) :
    a.Spares (fun o => ∃ x ∈ accesses, (Ty.object o).Within x.target) (accesses.foldl Access.run a) ∧
      ∀ (b : Arena) (t : Ty) (name : String) (value : Ty),
        ((∃ cause, (b.setAttribute t name value).1 = .error cause) ↔
            (∃ p, t = .prim p) ∨ (∃ c, t = .container c) ∨ ∃ f, t = .builtin f) ∧
          ∀ cause, (b.setAttribute t name value).1 = .error cause →
            (Access.write t name value).run b = b := by
  constructor
  · refine List.foldlRecOn accesses Access.run (.refl _ a) ?_
    intro b hb x hx
    exact hb.run x (fun o ho => ⟨x, hx, ho⟩) (h x hx)
  · intro b t name value
    have hsealed := b.setAttribute_eq_error_iff t name value
    exact ⟨hsealed.trans isSealed_iff, fun cause => run_write_of_error⟩

def twins : Arena where
  classes := #[{ name := some "A", attributes := ⟨[("x", .value .int)]⟩ }]
  objects := #[{ cls := ⟨0⟩ }, { cls := ⟨0⟩ }]

def twinAccesses : List Access :=
  [.read (.object ⟨0⟩) "y" 1.0, .write (.union ⟨[.object ⟨0⟩, .int], [0.5, 0.5]⟩) "x" .str,
    .delete (.object ⟨0⟩) "y"]

theorem within_twinAccesses {x : Access} {s : Ty} (hx : x ∈ twinAccesses) (hs : s.Within x.target) :
    s.isUnion = true ∨ s = .object ⟨0⟩ ∨ s = .int := by
  simp only [twinAccesses, List.mem_cons, List.not_mem_nil, or_false] at hx
  rcases hx with rfl | rfl | rfl
  · cases hs with
    | self => exact .inr (.inl rfl)
  · cases hs with
    | self => exact .inl rfl
    | union ht hs =>
      simp only [List.mem_cons, List.not_mem_nil, or_false] at ht
      rcases ht with rfl | rfl
      · cases hs with
        | self => exact .inr (.inl rfl)
      · cases hs with
        | self => exact .inr (.inr rfl)
  · cases hs with
    | self => exact .inr (.inl rfl)

theorem not_within_twinAccesses : ∀ x ∈ twinAccesses, ∀ id, ¬(Ty.classObj id).Within x.target := by
  intro x hx id hid
  obtain h | h | h := within_twinAccesses hx hid <;> cases h

/-- The second object and the class are as they were, and a number takes no attribute. -/
theorem accesses_spare_twin :
    (∀ x ∈ twinAccesses, ∀ id, ¬(Ty.classObj id).Within x.target) ∧
      (twinAccesses.foldl Access.run twins).objectAt ⟨1⟩ = { cls := ⟨0⟩ } ∧
      ((twinAccesses.foldl Access.run twins).classAt ⟨0⟩).declared =
        { name := some "A", attributes := ⟨[("x", .value .int)]⟩ } ∧
      ∃ cause, (twins.setAttribute .int "x" .str).1 = .error cause := by
  obtain ⟨hspares, hrefused⟩ := accesses_spare twins twinAccesses not_within_twinAccesses
  refine ⟨not_within_twinAccesses, ?_, ?_, ?_⟩
  · apply hspares.objectAt ⟨1⟩
    rintro ⟨x, hx, hid⟩
    obtain h | h | h := within_twinAccesses hx hid <;> cases h
  · exact hspares.declared ⟨0⟩
  · exact (hrefused twins .int "x" .str).1.2 (.inl ⟨.int, rfl⟩)

end Arena

end Credence

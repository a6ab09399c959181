import Credence.Proofs.Adoption

namespace Credence

section Arrays

variable {α : Type} {d : α}

theorem getD_of_not_lt {xs : Array α} {i : Nat} (h : ¬i < xs.size) : xs.getD i d = d := by
  rw [Array.getD_eq_getD_getElem?, Array.getElem?_eq_none (Nat.le_of_not_lt h)]
  rfl

theorem getD_push_of_lt {xs : Array α} {x : α} {i : Nat} (h : i < xs.size) :
    (xs.push x).getD i d = xs.getD i d := by
  rw [Array.getD_eq_getD_getElem?, Array.getD_eq_getD_getElem?, Array.getElem?_push_lt h]
  simp [h]

theorem getD_push_size (xs : Array α) (x : α) : (xs.push x).getD xs.size d = x := by
  rw [Array.getD_eq_getD_getElem?, Array.getElem?_push_size]
  rfl

theorem getD_modify_of_ne {xs : Array α} {i j : Nat} {f : α → α} (h : i ≠ j) :
    (xs.modify i f).getD j d = xs.getD j d := by
  rw [Array.getD_eq_getD_getElem?, Array.getD_eq_getD_getElem?, Array.getElem?_modify, if_neg h]

theorem getD_modify_self {xs : Array α} {i : Nat} {f : α → α} (h : i < xs.size) :
    (xs.modify i f).getD i d = f (xs.getD i d) := by
  simp [Array.getD_eq_getD_getElem?, h, Array.getElem_modify_self]

end Arrays

namespace Arena

theorem classAt_addClass (a : Arena) (info : ClassInfo) :
    (a.addClass info).2.classAt ⟨a.classes.size⟩ = info :=
  getD_push_size _ _

theorem classAt_modifyClass {a : Arena} {id : ClassId} (f : ClassInfo → ClassInfo)
    (h : id.val < a.classes.size) : (a.modifyClass id f).classAt id = f (a.classAt id) :=
  getD_modify_self h

theorem functionAt_addFunction (a : Arena) (info : FunctionInfo) :
    (a.addFunction info).2.functionAt ⟨a.functions.size⟩ = info :=
  getD_push_size _ _

theorem functionAt_modifyFunction {a : Arena} {id : FunctionId} (f : FunctionInfo → FunctionInfo)
    (h : id.val < a.functions.size) : (a.modifyFunction id f).functionAt id = f (a.functionAt id) :=
  getD_modify_self h

theorem moduleAt_addModule (a : Arena) (info : ModuleInfo) :
    (a.addModule info).2.moduleAt ⟨a.modules.size⟩ = info :=
  getD_push_size _ _

theorem moduleAt_modifyModule {a : Arena} {id : ModuleId} (f : ModuleInfo → ModuleInfo)
    (h : id.val < a.modules.size) : (a.modifyModule id f).moduleAt id = f (a.moduleAt id) :=
  getD_modify_self h

theorem objectAt_addObject (a : Arena) (cls : ClassId) :
    (a.addObject cls).2.objectAt ⟨a.objects.size⟩ = { cls } :=
  getD_push_size _ _

theorem objectAt_modifyObject {a : Arena} {id : ObjectId} (f : ObjectInfo → ObjectInfo)
    (h : id.val < a.objects.size) : (a.modifyObject id f).objectAt id = f (a.objectAt id) :=
  getD_modify_self h

end Arena

namespace Adoption

theorem not_pairs_class {a : Adoption} {id : ClassId} (h : a.classes.lookup id = none) {g : Entry} :
    ¬a.Pairs (.cls id) g := by
  cases g with
  | cls copy => exact not_mem_of_lookup h copy
  | _ => exact not_false

theorem not_pairs_object {a : Adoption} {id : ObjectId} (h : a.objects.lookup id = none)
    {g : Entry} : ¬a.Pairs (.object id) g := by
  cases g with
  | object copy => exact not_mem_of_lookup h copy
  | _ => exact not_false

theorem not_pairs_function {a : Adoption} {id : FunctionId} (h : a.functions.lookup id = none)
    {g : Entry} : ¬a.Pairs (.function id) g := by
  cases g with
  | function copy => exact not_mem_of_lookup h copy
  | _ => exact not_false

theorem not_pairs_module {a : Adoption} {id : ModuleId} (h : a.modules.lookup id = none)
    {g : Entry} : ¬a.Pairs (.module id) g := by
  cases g with
  | module copy => exact not_mem_of_lookup h copy
  | _ => exact not_false

theorem not_pairs_scope {a : Adoption} {id : ScopeId} (hid : id ≠ Scopes.global)
    (h : a.copied.lookup id = none) {g : Entry} : ¬a.Pairs (.scope id) g := by
  cases g with
  | scope copy =>
    rintro (⟨rfl, -⟩ | hm)
    · exact hid rfl
    · exact not_mem_of_lookup h copy hm
  | _ => exact not_false

theorem opens_class (a : Adoption) (id : ClassId) (info : ClassInfo) (h : info.inherited = none) :
    Opens a (.cls id) (.cls ⟨a.arena.classes.size⟩)
      { a with
        arena := (a.arena.addClass info).2
        classes := (id, ⟨a.arena.classes.size⟩) :: a.classes } where
  current := rfl
  saved := rfl
  module := rfl
  pairs {d g} := by cases d <;> cases g <;> simp [Pairs, or_comm]
  fresh := Nat.lt_irrefl _
  contains {g} := by
    rcases g with ⟨⟨g⟩⟩ | ⟨⟨g⟩⟩ | ⟨⟨g⟩⟩ | ⟨⟨g⟩⟩ | ⟨⟨g⟩⟩ <;>
      simp only [World.Contains, target, Arena.addClass, Array.size_push, Nat.lt_succ_iff_lt_or_eq,
        Entry.cls.injEq, ClassId.mk.injEq, reduceCtorEq, or_false]
  keeps {g} hg := by
    cases g with
    | cls id => exact getD_push_of_lt hg
    | _ => rfl
  unmerged {copy} hcopy := by
    cases hcopy
    rw [Arena.classAt_addClass]
    exact h

theorem opens_object (a : Adoption) (id : ObjectId) (cls : ClassId) :
    Opens a (.object id) (.object ⟨a.arena.objects.size⟩)
      { a with
        arena := (a.arena.addObject cls).2
        objects := (id, ⟨a.arena.objects.size⟩) :: a.objects } where
  current := rfl
  saved := rfl
  module := rfl
  pairs {d g} := by cases d <;> cases g <;> simp [Pairs, or_comm]
  fresh := Nat.lt_irrefl _
  contains {g} := by
    rcases g with ⟨⟨g⟩⟩ | ⟨⟨g⟩⟩ | ⟨⟨g⟩⟩ | ⟨⟨g⟩⟩ | ⟨⟨g⟩⟩ <;>
      simp only [World.Contains, target, Arena.addObject, Array.size_push, Nat.lt_succ_iff_lt_or_eq,
        Entry.object.injEq, ObjectId.mk.injEq, reduceCtorEq, or_false]
  keeps {g} hg := by
    cases g with
    | object id => exact getD_push_of_lt hg
    | _ => rfl
  unmerged := nofun

theorem opens_function (a : Adoption) (id : FunctionId) (info : FunctionInfo) :
    Opens a (.function id) (.function ⟨a.arena.functions.size⟩)
      { a with
        arena := (a.arena.addFunction info).2
        functions := (id, ⟨a.arena.functions.size⟩) :: a.functions } where
  current := rfl
  saved := rfl
  module := rfl
  pairs {d g} := by cases d <;> cases g <;> simp [Pairs, or_comm]
  fresh := Nat.lt_irrefl _
  contains {g} := by
    rcases g with ⟨⟨g⟩⟩ | ⟨⟨g⟩⟩ | ⟨⟨g⟩⟩ | ⟨⟨g⟩⟩ | ⟨⟨g⟩⟩ <;>
      simp only [World.Contains, target, Arena.addFunction, Array.size_push, Nat.lt_succ_iff_lt_or_eq,
        Entry.function.injEq, FunctionId.mk.injEq, reduceCtorEq, or_false]
  keeps {g} hg := by
    cases g with
    | function id => exact getD_push_of_lt hg
    | _ => rfl
  unmerged := nofun

theorem opens_module (a : Adoption) (id : ModuleId) (info : ModuleInfo) :
    Opens a (.module id) (.module ⟨a.arena.modules.size⟩)
      { a with
        arena := (a.arena.addModule info).2
        modules := (id, ⟨a.arena.modules.size⟩) :: a.modules } where
  current := rfl
  saved := rfl
  module := rfl
  pairs {d g} := by cases d <;> cases g <;> simp [Pairs, or_comm]
  fresh := Nat.lt_irrefl _
  contains {g} := by
    rcases g with ⟨⟨g⟩⟩ | ⟨⟨g⟩⟩ | ⟨⟨g⟩⟩ | ⟨⟨g⟩⟩ | ⟨⟨g⟩⟩ <;>
      simp only [World.Contains, target, Arena.addModule, Array.size_push, Nat.lt_succ_iff_lt_or_eq,
        Entry.module.injEq, ModuleId.mk.injEq, reduceCtorEq, or_false]
  keeps {g} hg := by
    cases g with
    | module id => exact getD_push_of_lt hg
    | _ => rfl
  unmerged := nofun

theorem opens_scope (a : Adoption) (id : ScopeId) (scope : Scope) :
    Opens a (.scope id) (.scope ⟨a.scopes.all.size⟩)
      { a with
        scopes := (a.scopes.touch.alloc scope).2
        copied := (id, ⟨a.scopes.all.size⟩) :: a.copied } where
  current := rfl
  saved := rfl
  module := rfl
  pairs {d g} := by
    cases d <;> cases g <;> simp [Pairs, or_comm, or_assoc]
  fresh := Nat.lt_irrefl _
  contains {g} := by
    rcases g with ⟨⟨g⟩⟩ | ⟨⟨g⟩⟩ | ⟨⟨g⟩⟩ | ⟨⟨g⟩⟩ | ⟨⟨g⟩⟩ <;>
      simp only [World.Contains, target, Scopes.touch, Scopes.alloc, Array.size_push,
        Nat.lt_succ_iff_lt_or_eq, Entry.scope.injEq, ScopeId.mk.injEq, reduceCtorEq, or_false]
  keeps {g} hg := by
    cases g with
    | scope id => exact getD_push_of_lt hg
    | _ => rfl
  unmerged := nofun

theorem fills_of_arena (a : Adoption) {f : Entry} {arena : Arena}
    (hcontains : ∀ g, World.Contains ⟨arena, a.scopes⟩ g ↔ a.target.Contains g)
    (hkeeps : ∀ g, g ≠ f → a.target.SameAt ⟨arena, a.scopes⟩ g)
    (hunmerged : ∀ id, (arena.classAt id).inherited = (a.arena.classAt id).inherited) :
    Fills a f { a with arena } where
  current := rfl
  saved := rfl
  module := rfl
  pairs {d g} := by cases d <;> cases g <;> rfl
  contains {g} := hcontains g
  keeps {g} := hkeeps g
  unmerged {id} := hunmerged id

theorem fills_class (a : Adoption) (id : ClassId) {f : ClassInfo → ClassInfo}
    (h : ∀ c, (f c).inherited = c.inherited) :
    Fills a (.cls id) { a with arena := a.arena.modifyClass id f } := by
  refine fills_of_arena a (fun g => ?_) (fun g hg => ?_) fun other => ?_
  · cases g <;> simp [World.Contains, target, Arena.modifyClass]
  · cases g with
    | cls other => exact getD_modify_of_ne fun h => hg (by cases id; cases other; simp_all)
    | _ => rfl
  · by_cases hlt : other.val < a.arena.classes.size
    · by_cases hid : id.val = other.val
      · obtain ⟨i⟩ := id
        cases hid
        exact (congrArg ClassInfo.inherited (Arena.classAt_modifyClass f hlt)).trans (h _)
      · exact congrArg ClassInfo.inherited (getD_modify_of_ne hid)
    · refine congrArg ClassInfo.inherited ((getD_of_not_lt ?_).trans (getD_of_not_lt hlt).symm)
      rwa [Arena.modifyClass, Array.size_modify]

theorem fills_object (a : Adoption) (id : ObjectId) (f : ObjectInfo → ObjectInfo) :
    Fills a (.object id) { a with arena := a.arena.modifyObject id f } := by
  refine fills_of_arena a (fun g => ?_) (fun g hg => ?_) fun _ => rfl
  · cases g <;> simp [World.Contains, target, Arena.modifyObject]
  · cases g with
    | object other => exact getD_modify_of_ne fun h => hg (by cases id; cases other; simp_all)
    | _ => rfl

theorem fills_function (a : Adoption) (id : FunctionId) (f : FunctionInfo → FunctionInfo) :
    Fills a (.function id) { a with arena := a.arena.modifyFunction id f } := by
  refine fills_of_arena a (fun g => ?_) (fun g hg => ?_) fun _ => rfl
  · cases g <;> simp [World.Contains, target, Arena.modifyFunction]
  · cases g with
    | function other => exact getD_modify_of_ne fun h => hg (by cases id; cases other; simp_all)
    | _ => rfl

theorem fills_module (a : Adoption) (id : ModuleId) (f : ModuleInfo → ModuleInfo) :
    Fills a (.module id) { a with arena := a.arena.modifyModule id f } := by
  refine fills_of_arena a (fun g => ?_) (fun g hg => ?_) fun _ => rfl
  · cases g <;> simp [World.Contains, target, Arena.modifyModule]
  · cases g with
    | module other => exact getD_modify_of_ne fun h => hg (by cases id; cases other; simp_all)
    | _ => rfl

theorem fills_scope (a : Adoption) (id : ScopeId) (f : Scope → Scope) :
    Fills a (.scope id) { a with scopes := (a.scopes.modifyScope id f).touch } where
  current := rfl
  saved := rfl
  module := rfl
  pairs {d g} := by cases d <;> cases g <;> rfl
  contains {g} := by
    cases g <;> simp [World.Contains, target, Scopes.modifyScope, Scopes.touch]
  keeps {g} hg := by
    cases g with
    | scope other => exact getD_modify_of_ne fun h => hg (by cases id; cases other; simp_all)
    | _ => rfl
  unmerged := rfl

section Places

variable {w : World} {P : Entry → Prop} {a b c : Adoption}

theorem matches_class {id copy : ClassId} {info : ClassInfo} {f : ClassInfo → ClassInfo}
    (ho : Opens a (.cls id) (.cls copy) b) (hb : b.arena.classAt copy = info)
    (hx : Extends w P b c) (hcopied : (w.arena.classAt id).Copied c.Pairs (f info))
    (hbases : ∀ base ∈ (f info).bases, base.val < copy.val) :
    w.Matches (target { c with arena := c.arena.modifyClass copy f })
      (Pairs { c with arena := c.arena.modifyClass copy f }) (.cls id) (.cls copy) := by
  obtain ⟨hin, hsame⟩ := hx.keeps ho.contains_place
  have hinfo : c.arena.classAt copy = info := Eq.trans hsame hb
  have hfilled : (c.arena.modifyClass copy f).classAt copy = f info := by
    rw [← hinfo]
    exact Arena.classAt_modifyClass f hin
  simp only [World.Matches, target, hfilled]
  exact ⟨hcopied, hbases⟩

theorem matches_object {id copy : ObjectId} {info : ObjectInfo} {f : ObjectInfo → ObjectInfo}
    (ho : Opens a (.object id) (.object copy) b) (hb : b.arena.objectAt copy = info)
    (hx : Extends w P b c) (hcopied : (w.arena.objectAt id).Copied c.Pairs (f info)) :
    w.Matches (target { c with arena := c.arena.modifyObject copy f })
      (Pairs { c with arena := c.arena.modifyObject copy f }) (.object id) (.object copy) := by
  obtain ⟨hin, hsame⟩ := hx.keeps ho.contains_place
  have hinfo : c.arena.objectAt copy = info := Eq.trans hsame hb
  have hfilled : (c.arena.modifyObject copy f).objectAt copy = f info := by
    rw [← hinfo]
    exact Arena.objectAt_modifyObject f hin
  simp only [World.Matches, target, hfilled]
  exact hcopied

theorem matches_function {id copy : FunctionId} {info : FunctionInfo} {f : FunctionInfo → FunctionInfo}
    (ho : Opens a (.function id) (.function copy) b) (hb : b.arena.functionAt copy = info)
    (hx : Extends w P b c) (hcopied : (w.arena.functionAt id).Copied c.Pairs (f info)) :
    w.Matches (target { c with arena := c.arena.modifyFunction copy f })
      (Pairs { c with arena := c.arena.modifyFunction copy f }) (.function id) (.function copy) := by
  obtain ⟨hin, hsame⟩ := hx.keeps ho.contains_place
  have hinfo : c.arena.functionAt copy = info := Eq.trans hsame hb
  have hfilled : (c.arena.modifyFunction copy f).functionAt copy = f info := by
    rw [← hinfo]
    exact Arena.functionAt_modifyFunction f hin
  simp only [World.Matches, target, hfilled]
  exact hcopied

theorem matches_module {id copy : ModuleId} {info : ModuleInfo} {f : ModuleInfo → ModuleInfo}
    (ho : Opens a (.module id) (.module copy) b) (hb : b.arena.moduleAt copy = info)
    (hx : Extends w P b c) (hcopied : (w.arena.moduleAt id).Copied c.Pairs (f info)) :
    w.Matches (target { c with arena := c.arena.modifyModule copy f })
      (Pairs { c with arena := c.arena.modifyModule copy f }) (.module id) (.module copy) := by
  obtain ⟨hin, hsame⟩ := hx.keeps ho.contains_place
  have hinfo : c.arena.moduleAt copy = info := Eq.trans hsame hb
  have hfilled : (c.arena.modifyModule copy f).moduleAt copy = f info := by
    rw [← hinfo]
    exact Arena.moduleAt_modifyModule f hin
  simp only [World.Matches, target, hfilled]
  exact hcopied

theorem matches_scope {id copy : ScopeId} {info : Scope} {f : Scope → Scope}
    (ho : Opens a (.scope id) (.scope copy) b) (hb : b.scopes.scopeAt copy = info)
    (hx : Extends w P b c) (hcopied : (w.scopes.scopeAt id).Copied c.Pairs (f info)) :
    w.Matches (target { c with scopes := (c.scopes.modifyScope copy f).touch })
      (Pairs { c with scopes := (c.scopes.modifyScope copy f).touch })
      (.scope id) (.scope copy) := by
  obtain ⟨hin, hsame⟩ := hx.keeps ho.contains_place
  have hinfo : c.scopes.scopeAt copy = info := Eq.trans hsame hb
  have hfilled : (c.scopes.modifyScope copy f).touch.scopeAt copy = f info := by
    rw [← hinfo]
    exact getD_modify_self hin
  simp only [World.Matches, target, hfilled]
  exact hcopied

end Places

variable {w : World} {P : Entry → Prop} {n : Nat} {copier : Copier} {live : Prop} {a : Adoption}

/-- Copies of entries with some fuel, within any set of entries that no way leads out of. -/
structure Spec (w : World) (n : Nat) (copier : Copier) : Prop where
  cls : ∀ {P : Entry → Prop} {a : Adoption} {id : ClassId}, w.Closed P → P (.cls id) →
    Copying w P (w.Grounded P ∧ a.Live w n (.cls id)) (copier.cls id) a
      fun R copy => R (.cls id) (.cls copy)
  object : ∀ {P : Entry → Prop} {a : Adoption} {id : ObjectId}, w.Closed P → P (.object id) →
    Copying w P (w.Grounded P ∧ a.Live w n (.object id)) (copier.object id) a
      fun R copy => R (.object id) (.object copy)
  function : ∀ {P : Entry → Prop} {a : Adoption} {id : FunctionId}, w.Closed P →
    P (.function id) → Copying w P (w.Grounded P ∧ a.Live w n (.function id)) (copier.function id) a
      fun R copy => R (.function id) (.function copy)
  module : ∀ {P : Entry → Prop} {a : Adoption} {id : ModuleId}, w.Closed P → P (.module id) →
    Copying w P (w.Grounded P ∧ a.Live w n (.module id)) (copier.module id) a
      fun R copy => R (.module id) (.module copy)
  scope : ∀ {P : Entry → Prop} {a : Adoption} {id : ScopeId}, w.Closed P → P (.scope id) →
    Copying w P (w.Grounded P ∧ a.Live w n (.scope id)) (copier.scope id) a
      fun R copy => R (.scope id) (.scope copy)

def Fuelled (w : World) (P : Entry → Prop) (n : Nat) (live : Prop) (a : Adoption)
    (mentions : Entry → Prop) : Prop :=
  live → w.Grounded P ∧ ∀ e, mentions e → a.Ready w n

theorem Fuelled.mono {mentions : Entry → Prop} {b : Adoption} (h : Fuelled w P n live a mentions)
    (hab : Extends w P a b) : Fuelled w P n live b mentions :=
  fun hl => ⟨(h hl).1, fun e he => ((h hl).2 e he).mono hab.pairs⟩

theorem Fuelled.imp {mentions fewer : Entry → Prop} (h : Fuelled w P n live a mentions)
    (himp : ∀ e, fewer e → mentions e) : Fuelled w P n live a fewer :=
  fun hl => ⟨(h hl).1, fun e he => (h hl).2 e (himp e he)⟩

theorem Fuelled.entry {mentions : Entry → Prop} (h : Fuelled w P n live a mentions) {e : Entry}
    (he : mentions e) (hl : live) : w.Grounded P ∧ a.Live w n e :=
  ⟨(h hl).1, ((h hl).2 e he).live e⟩

theorem copied_of_attach {rel : Ty → Ty → Prop} {xs ys : List Ty}
    (h : List.Forall₂ (fun (x : {t // t ∈ xs}) y => rel x.1 y) xs.attach ys) :
    List.Forall₂ rel xs ys := by
  have h' := List.forall₂_map_left_iff.2 h
  rwa [List.attach_map_subtype_val] at h'

theorem Spec.adopt (hs : Spec w n copier) (hP : w.Closed P) {t : Ty} (ht : ∀ e, t.Mentions e → P e)
    (hf : Fuelled w P n live a t.Mentions) :
    Copying w P live (adopt copier t) a fun R => t.Copied R := by
  induction t using WellFounded.induction (measure (sizeOf : Ty → Nat)).wf generalizing a with
  | _ t ih =>
    have hmono {xs : List Ty} :
        Copying.Monotone fun R (x : {t // t ∈ xs}) (y : Ty) => x.1.Copied R y :=
      fun _ _ hRS _ _ h => h.mono hRS
    rw [Adoption.adopt.eq_def]
    cases t with
    | any => exact .pure .any
    | undefined => exact .pure .undefined
    | prim p => exact .pure (.prim p)
    | builtin b => exact .pure (.builtin b)
    | container c =>
      refine Copying.bind (Copying.mapM hmono fun t _ b hb => ?_) fun elts b hb helts => ?_
      · exact ih t.1 (Ty.sizeOf_lt_of_mem_elts t.2) (fun e he => ht e (.elt t.2 he))
          ((hf.mono hb).imp fun e he => .elt t.2 he)
      refine Copying.bind (Copying.mapM hmono fun t _ c hc => ?_) fun values c hc hvalues => ?_
      · exact ih t.1 (Ty.sizeOf_lt_of_mem_values t.2) (fun e he => ht e (.value t.2 he))
          ((hf.mono (hb.trans hc)).imp fun e he => .value t.2 he)
      refine .pure (.container (copied_of_attach (helts.imp ?_)) (copied_of_attach hvalues))
      exact fun _ _ h => h.mono hc.pairs
    | union u =>
      refine Copying.bind (Copying.mapM hmono fun t _ b hb => ?_) fun elts b hb helts => ?_
      · exact ih t.1 (Ty.sizeOf_lt_of_mem_union t.2) (fun e he => ht e (.alternative t.2 he))
          ((hf.mono hb).imp fun e he => .alternative t.2 he)
      exact .pure (.union (copied_of_attach helts))
    | classObj id =>
      have h := hs.cls (a := a) hP (ht _ (.classObj id))
      exact Copying.bind (h.of_live (hf.entry (.classObj id))) fun copy b _ hc =>
        .pure (.classObj hc)
    | object id =>
      have h := hs.object (a := a) hP (ht _ (.object id))
      exact Copying.bind (h.of_live (hf.entry (.object id))) fun copy b _ hc => .pure (.object hc)
    | function id =>
      have h := hs.function (a := a) hP (ht _ (.function id))
      exact Copying.bind (h.of_live (hf.entry (.function id))) fun copy b _ hc =>
        .pure (.function hc)
    | method object id =>
      have ho := hs.object (a := a) hP (ht _ (.receiver object id))
      refine Copying.bind (ho.of_live (hf.entry (.receiver object id))) fun copy b hb hcopy => ?_
      have h := hs.function (a := b) hP (ht _ (.method object id))
      refine Copying.bind (h.of_live ((hf.mono hb).entry (.method object id))) ?_
      exact fun method c hc hmethod => .pure (.method (hc.pairs hcopy) hmethod)
    | module id =>
      have h := hs.module (a := a) hP (ht _ (.module id))
      exact Copying.bind (h.of_live (hf.entry (.module id))) fun copy b _ hc => .pure (.module hc)

theorem Spec.adoptSlot (hs : Spec w n copier) (hP : w.Closed P) {slot : Slot}
    (ht : ∀ e, slot.type.Mentions e → P e) (hf : Fuelled w P n live a slot.type.Mentions) :
    Copying w P live (adoptSlot copier slot) a fun R => slot.Copied R := by
  cases slot with
  | value t => exact Copying.bind (hs.adopt hP ht hf) fun u b _ hu => .pure (.value hu)
  | function id =>
    have h := hs.function (a := a) hP (ht _ (.function id))
    exact Copying.bind (h.of_live (hf.entry (.function id))) fun copy b _ hc => .pure (.function hc)

theorem contains_of_attributes {id : ClassId} {entry : String × Slot}
    (h : entry ∈ (w.arena.classAt id).attributes.entries) : w.Contains (.cls id) := by
  by_contra hlt
  rw [Arena.classAt, getD_of_not_lt hlt] at h
  cases h

theorem contains_of_overlay {id : ObjectId} {entry : String × Ty}
    (h : entry ∈ (w.arena.objectAt id).overlay.entries) : w.Contains (.object id) := by
  by_contra hlt
  rw [Arena.objectAt, getD_of_not_lt hlt] at h
  cases h

theorem contains_of_functionAt {id : FunctionId} (h : w.arena.functionAt id ≠ default) :
    w.Contains (.function id) := by
  by_contra hlt
  exact h (getD_of_not_lt hlt)

theorem contains_of_exports {id : ModuleId} {entry : String × Ty}
    (h : entry ∈ (w.arena.moduleAt id).exports.entries) : w.Contains (.module id) := by
  by_contra hlt
  rw [Arena.moduleAt, getD_of_not_lt hlt] at h
  cases h

theorem contains_of_scopeAt {id : ScopeId} (h : w.scopes.scopeAt id ≠ default) :
    w.Contains (.scope id) := by
  by_contra hlt
  exact h (getD_of_not_lt hlt)

theorem Spec.copyClass (hs : Spec w n copier) (hP : w.Closed P) {id : ClassId}
    (hid : P (.cls id)) :
    Copying w P (w.Grounded P ∧ a.Live w (n + 1) (.cls id)) (copyClass w copier id) a
      fun R copy => R (.cls id) (.cls copy) := by
  refine Copying.get_bind ?_
  cases h : a.classes.lookup id with
  | some copy => exact fun _ => ⟨.refl a, mem_of_lookup h⟩
  | none =>
    have hbase : Copying.Monotone fun R (base copy : ClassId) => R (.cls base) (.cls copy) :=
      fun _ _ hRS _ _ h => hRS h
    refine Copying.bind (Copying.mapM hbase fun base hm b hb => ?_) fun bases b hb hbases => ?_
    · have hc := hs.cls (a := b) hP (hP hid (.base hm))
      exact hc.of_live fun hl => ⟨hl.1, hl.2.base hb.pairs (hl.1 id hid) hm⟩
    refine Copying.get_bind ?_
    cases hb' : b.classes.lookup id with
    | some copy => exact fun _ => ⟨.refl b, mem_of_lookup hb'⟩
    | none =>
      intro hv
      have ho := opens_class b id
        { name := (w.arena.classAt id).name, bases
          hasUnknownBase := (w.arena.classAt id).hasUnknownBase
          isDecorated := (w.arena.classAt id).isDecorated, line := (w.arena.classAt id).line
          file := (w.arena.classAt id).file } rfl
      refine Gives.modifyGet_bind (Gives.modify_bind ?_)
      refine Copying.of_opens Entry.cls ho hid (fun _ => not_pairs_class hb') ?_
      refine Gives.bind (Copying.tableMapM (fun _ _ hRS _ _ h => h.mono hRS) (fun entry hm c hc =>
        hs.adoptSlot hP (fun e he => hP hid (.stored (.slot hm) he)) ?_) (ho.valid hv)) ?_
      · intro hl
        have hready := hl.2.ready (fun h => ho.pairs.2 (.inl (hb.pairs h)))
          (contains_of_attributes hm) (not_pairs_class h) (ho.pairs.2 (.inr ⟨rfl, rfl⟩))
        exact ⟨hl.1, fun e _ => hready.mono hc.pairs⟩
      · rintro attributes c ⟨hc, hattributes⟩
        refine ⟨rfl, c, hc, fills_class c _ fun _ => rfl, matches_class ho (Arena.classAt_addClass _ _) hc ?_ fun base hbase => ?_⟩
        · exact
            { name := rfl, hasUnknownBase := rfl, isDecorated := rfl, line := rfl, file := rfl
              bases := hbases.imp fun _ _ h => hc.pairs (ho.pairs.2 (.inl h))
              attributes := hattributes }
        · obtain ⟨d, -, hd⟩ := exists_of_forall₂ hbases.flip hbase
          exact hv (e := .cls d) (f := .cls base) hd nofun

/-- The class of an object is copied before there is a place for the object. -/
structure OfClass (w : World) (P : Entry → Prop) (id : ObjectId) (a : Adoption) (copy : ObjectId)
    (d : Adoption) where
  before : Adoption
  cls : ClassId
  below : Extends w (w.Reaches (.cls (w.arena.classOf id))) a before
  classCopied : before.Pairs (.cls (w.arena.classOf id)) (.cls cls)
  later : Extends w P before d
  fresh : ¬before.target.Contains (.object copy)
  copied : d.Pairs (.object id) (.object copy)

theorem Spec.copyObject_of_new (hs : Spec w n copier) (hP : w.Closed P) {id : ObjectId}
    (hid : P (.object id)) (h : a.objects.lookup id = none) (hv : a.Valid) :
    Gives (w.Grounded P ∧ a.Live w (n + 1) (.object id)) (copyObject w copier id) a
      fun copy d => Nonempty (OfClass w P id a copy d) := by
  refine Gives.get_bind ?_
  rw [h]
  have hwithin {e : Entry} (he : w.Reaches (.cls (w.arena.classOf id)) e) : P e :=
    hP.of_reaches (hP hid (.classOf id)) he
  have hself : w.Reaches (.cls (w.arena.classOf id)) (.cls (w.arena.classOf id)) := .refl
  have hclass := hs.cls (a := a) (w.closed_reaches _) hself hv
  refine Gives.bind (hclass.of_live fun hl => ?_) fun cls b ⟨below, hcls⟩ => ?_
  · refine ⟨fun c hc => hl.1 c (hwithin hc), [], ⟨List.nodup_nil, by simp, by simp⟩, ?_⟩
    have hfuel := hl.2
    simp only [Live, List.length_nil] at hfuel ⊢
    omega
  have hb : Extends w P a b := below.widen hwithin
  -- Nothing so far is a copy of the object, unless the class leads to it.
  have hnew (hapart : w.Apart P) {g : Entry} : ¬b.Pairs (.object id) g := fun hg =>
    hapart id hid (below.inside hg (not_pairs_object h))
  have ho := opens_object b id cls
  refine Gives.modifyGet_bind (Gives.modify_bind ?_)
  refine Gives.imp (Copying.of_opens_fresh Entry.object ho hid
    (fun hapart => hnew (hapart trivial)) ?_)
    fun copy d hd => ⟨⟨b, cls, below, hcls, hd.1.1, hd.2, hd.1.2⟩⟩
  refine Gives.bind (Copying.tableMapM (fun _ _ hRS _ _ h => h.mono hRS) (fun entry hm c hc =>
    hs.adopt hP (fun e he => hP hid (.stored (.overlay hm) he)) ?_) (ho.valid (hb.valid hv))) ?_
  · intro hl
    have hready := hl.2.ready (fun h => ho.pairs.2 (.inl (hb.pairs h))) (contains_of_overlay hm)
      (not_pairs_object h) (ho.pairs.2 (.inr ⟨rfl, rfl⟩))
    exact ⟨hl.1, fun e _ => hready.mono hc.pairs⟩
  · rintro overlay c ⟨hc, hoverlay⟩
    refine ⟨rfl, c, hc, fills_object c _ _, ?_⟩
    refine matches_object ho (Arena.objectAt_addObject _ _) hc ?_
    exact { cls := hc.pairs (ho.pairs.2 (.inl hcls)), overlay := hoverlay }

theorem Spec.copyObject (hs : Spec w n copier) (hP : w.Closed P) {id : ObjectId}
    (hid : P (.object id)) :
    Copying w P (w.Grounded P ∧ a.Live w (n + 1) (.object id)) (copyObject w copier id) a
      fun R copy => R (.object id) (.object copy) := by
  intro hv
  cases h : a.objects.lookup id with
  | some copy =>
    refine Gives.get_bind ?_
    rw [h]
    exact ⟨.refl a, mem_of_lookup h⟩
  | none =>
    refine (hs.copyObject_of_new hP hid h hv).imp fun copy d hd => ?_
    obtain ⟨hd⟩ := hd
    refine ⟨Extends.trans (hd.below.widen fun he => ?_) hd.later, hd.copied⟩
    exact hP.of_reaches (hP hid (.classOf id)) he

def paramMentions (params : List ParamInfo) (e : Entry) : Prop :=
  ∃ p ∈ params, ∃ t, p.Uses t ∧ t.Mentions e

theorem Spec.adoptOption (hs : Spec w n copier) (hP : w.Closed P) {o : Option Ty}
    (ht : ∀ t, o = some t → ∀ e, t.Mentions e → P e)
    (hf : Fuelled w P n live a fun e => ∃ t, o = some t ∧ t.Mentions e) :
    Copying w P live (o.mapM (Adoption.adopt copier)) a fun R => Option.Rel (Ty.Copied R) o := by
  refine Copying.optionMapM fun t h => ?_
  exact hs.adopt hP (ht t h) (hf.imp fun _ he => ⟨t, h, he⟩)

theorem Spec.copyOwner (hs : Spec w n copier) (hP : w.Closed P) {o : Option ClassId}
    (ht : ∀ id, o = some id → P (.cls id))
    (hf : live → ∀ id, o = some id → w.Grounded P ∧ a.Live w n (.cls id)) :
    Copying w P live (o.mapM copier.cls) a
      fun R => Option.Rel (fun id copy => R (.cls id) (.cls copy)) o := by
  refine Copying.optionMapM fun id h => ?_
  exact (hs.cls hP (ht id h)).of_live fun hl => hf hl id h

theorem Spec.copyParent (hs : Spec w n copier) (hP : w.Closed P) {o : Option ScopeId}
    (ht : ∀ id, o = some id → P (.scope id))
    (hf : live → ∀ id, o = some id → w.Grounded P ∧ a.Live w n (.scope id)) :
    Copying w P live (o.mapM copier.scope) a
      fun R => Option.Rel (fun id copy => R (.scope id) (.scope copy)) o := by
  refine Copying.optionMapM fun id h => ?_
  exact (hs.scope hP (ht id h)).of_live fun hl => hf hl id h

theorem Spec.copyParam (hs : Spec w n copier) (hP : w.Closed P) {p : ParamInfo}
    (ht : ∀ e, paramMentions [p] e → P e) (hf : Fuelled w P n live a (paramMentions [p])) :
    Copying w P live (copyParam copier p) a fun R => p.Copied R := by
  have uses {t : Ty} (h : p.Uses t) (e : Entry) (he : t.Mentions e) : paramMentions [p] e :=
    ⟨p, List.mem_singleton_self p, t, h, he⟩
  refine Copying.bind (hs.adoptOption hP (fun t h e he => ht e (uses (.inl h) e he))
    (hf.imp fun e ⟨t, h, he⟩ => uses (.inl h) e he)) fun ascribed b hb hascribed => ?_
  refine Copying.bind (hs.adoptOption hP (fun t h e he => ht e (uses (.inr h) e he))
    ((hf.mono hb).imp fun e ⟨t, h, he⟩ => uses (.inr h) e he)) fun default c hc hdefault => ?_
  refine .pure ⟨rfl, optionRel_imp hascribed fun _ _ h => h.mono hc.pairs, hdefault⟩

theorem Spec.copyParams (hs : Spec w n copier) (hP : w.Closed P) {params : List ParamInfo}
    (ht : ∀ e, paramMentions params e → P e) (hf : Fuelled w P n live a (paramMentions params)) :
    Copying w P live (params.mapM (Adoption.copyParam copier)) a
      fun R => List.Forall₂ (ParamInfo.Copied R) params := by
  refine Copying.mapM (fun _ _ hRS _ _ h => h.mono hRS) fun p hp b hb => ?_
  have one (e : Entry) (h : paramMentions [p] e) : paramMentions params e := by
    obtain ⟨q, hq, h⟩ := h
    exact ⟨q, List.mem_singleton.1 hq ▸ hp, h⟩
  exact hs.copyParam hP (fun e he => ht e (one e he)) ((hf.mono hb).imp one)

theorem Spec.copyOptionalParam (hs : Spec w n copier) (hP : w.Closed P) {o : Option ParamInfo}
    (ht : ∀ e, paramMentions o.toList e → P e)
    (hf : Fuelled w P n live a (paramMentions o.toList)) :
    Copying w P live (o.mapM (Adoption.copyParam copier)) a
      fun R => Option.Rel (ParamInfo.Copied R) o := by
  refine Copying.optionMapM fun p h => ?_
  subst h
  exact hs.copyParam hP ht hf

theorem Spec.copySignature (hs : Spec w n copier) (hP : w.Closed P) {signature : Signature}
    (ht : ∀ e, paramMentions signature.all e → P e)
    (hf : Fuelled w P n live a (paramMentions signature.all)) :
    Copying w P live (copySignature copier signature) a fun R => signature.Copied R := by
  have part (params : List ParamInfo) (h : ∀ p ∈ params, p ∈ signature.all) (e : Entry)
      (he : paramMentions params e) : paramMentions signature.all e := by
    obtain ⟨p, hp, he⟩ := he
    exact ⟨p, h p hp, he⟩
  have hargs := part signature.args fun p hp => by simp [Signature.all, hp]
  have hvararg := part signature.vararg.toList fun p hp => by
    simp only [Signature.all, List.mem_append, hp, true_or, or_true]
  have hkwonly := part signature.kwonly fun p hp => by simp [Signature.all, hp]
  have hkwarg := part signature.kwarg.toList fun p hp => by
    simp only [Signature.all, List.mem_append, hp, or_true]
  refine Copying.bind (hs.copyParams hP (fun e he => ht e (hargs e he)) (hf.imp hargs))
    fun args b hb args' => ?_
  refine Copying.bind (hs.copyOptionalParam hP (fun e he => ht e (hvararg e he))
    ((hf.mono hb).imp hvararg)) fun vararg c hc vararg' => ?_
  refine Copying.bind (hs.copyParams hP (fun e he => ht e (hkwonly e he))
    ((hf.mono (hb.trans hc)).imp hkwonly)) fun kwonly d hd kwonly' => ?_
  refine Copying.bind (hs.copyOptionalParam hP (fun e he => ht e (hkwarg e he))
    ((hf.mono ((hb.trans hc).trans hd)).imp hkwarg)) fun kwarg f hx kwarg' => ?_
  exact .pure
    { args := args'.imp fun _ _ h => h.mono ((hc.trans hd).trans hx).pairs
      vararg := optionRel_imp vararg' fun _ _ h => h.mono (hd.trans hx).pairs
      kwonly := kwonly'.imp fun _ _ h => h.mono hx.pairs
      kwarg := kwarg' }

theorem Spec.copyFunction (hs : Spec w n copier) (hP : w.Closed P) {id : FunctionId}
    (hid : P (.function id)) :
    Copying w P (w.Grounded P ∧ a.Live w (n + 1) (.function id)) (copyFunction w copier id) a
      fun R copy => R (.function id) (.function copy) := by
  refine Copying.get_bind ?_
  cases h : a.functions.lookup id with
  | some copy => exact fun _ => ⟨.refl a, mem_of_lookup h⟩
  | none =>
    intro hv
    have ho := opens_function a id
      { w.arena.functionAt id with
        calls := [], lastReturn := none, owner := none, captured := Scopes.global }
    refine Gives.modifyGet_bind (Gives.modify_bind ?_)
    refine Copying.of_opens Entry.function ho hid (fun _ => not_pairs_function h) ?_
    have ready (hl : w.Grounded P ∧ a.Live w (n + 1) (.function id))
        (hne : w.arena.functionAt id ≠ default) : Ready w _ n :=
      hl.2.ready (fun h => ho.pairs.2 (.inl h)) (contains_of_functionAt hne) (not_pairs_function h)
        (ho.pairs.2 (.inr ⟨rfl, rfl⟩))
    have fuelled {mentions : Entry → Prop} (hm : ∀ e, mentions e → w.arena.functionAt id ≠ default) :
        Fuelled w P n (w.Grounded P ∧ a.Live w (n + 1) (.function id)) _ mentions :=
      fun hl => ⟨hl.1, fun e he => ready hl (hm e he)⟩
    refine Gives.bind (hs.copySignature hP
      (fun e ⟨p, hp, t, hu, he⟩ => hP hid (.stored (.param hp hu) he)) (fuelled ?_) (ho.valid hv)) ?_
    · rintro e ⟨p, hp, -⟩ hdefault
      rw [hdefault] at hp
      cases hp
    rintro signature b ⟨hb, hsignature⟩
    have hbv := hb.valid (ho.valid hv)
    refine Gives.bind (hs.adoptOption hP (fun t ht e he => hP hid (.stored (.declared ht) he))
      ((fuelled ?_).mono hb) hbv) ?_
    · rintro e ⟨t, ht, -⟩ hdefault
      rw [hdefault] at ht
      cases ht
    rintro declaredReturn c ⟨hc, hdeclared⟩
    have hbc := hb.trans hc
    refine Gives.bind (hs.adoptOption hP (fun t ht e he => hP hid (.stored (.last ht) he))
      ((fuelled ?_).mono hbc) (hc.valid hbv)) ?_
    · rintro e ⟨t, ht, -⟩ hdefault
      rw [hdefault] at ht
      cases ht
    rintro lastReturn d ⟨hd, hlast⟩
    have hbd := hbc.trans hd
    refine Gives.bind (hs.copyOwner hP (fun owner hm => hP hid (.owner hm))
      (fun hl owner hm => ⟨hl.1, ?_⟩) (hd.valid (hc.valid hbv))) ?_
    · refine ((ready hl fun hdefault => ?_).mono hbd.pairs).live _
      rw [hdefault] at hm
      cases hm
    rintro owner f ⟨hf, howner⟩
    have hbf := hbd.trans hf
    refine Gives.bind ((hs.scope hP (hP hid (.captured id)) (hbf.valid (ho.valid hv))).of_live
      fun hl => ⟨hl.1, hl.2.captured fun h => hbf.pairs (ho.pairs.2 (.inl h))⟩) ?_
    rintro captured g ⟨hg, hcaptured⟩
    refine ⟨rfl, g, hbf.trans hg, fills_function g _ _, ?_⟩
    refine matches_function ho (Arena.functionAt_addFunction _ _) (hbf.trans hg) ?_
    exact
      { signature := hsignature.mono (hc.trans (hd.trans (hf.trans hg))).pairs
        declaredReturn := optionRel_imp hdeclared fun _ _ h => h.mono (hd.trans (hf.trans hg)).pairs
        lastReturn := optionRel_imp hlast fun _ _ h => h.mono (hf.trans hg).pairs
        owner := optionRel_imp howner fun _ _ h => hg.pairs h
        captured := hcaptured, calls := rfl, same := rfl }

theorem Spec.copyModule (hs : Spec w n copier) (hP : w.Closed P) {id : ModuleId}
    (hid : P (.module id)) :
    Copying w P (w.Grounded P ∧ a.Live w (n + 1) (.module id)) (copyModule w copier id) a
      fun R copy => R (.module id) (.module copy) := by
  refine Copying.get_bind ?_
  cases h : a.modules.lookup id with
  | some copy => exact fun _ => ⟨.refl a, mem_of_lookup h⟩
  | none =>
    intro hv
    have ho := opens_module a id { name := (w.arena.moduleAt id).name }
    refine Gives.modifyGet_bind (Gives.modify_bind ?_)
    refine Copying.of_opens Entry.module ho hid (fun _ => not_pairs_module h) ?_
    refine Gives.bind (Copying.tableMapM (fun _ _ hRS _ _ h => h.mono hRS) (fun entry hm c hc =>
      hs.adopt hP (fun e he => hP hid (.stored (.exported hm) he)) ?_) (ho.valid hv)) ?_
    · intro hl
      have hready := hl.2.ready (fun h => ho.pairs.2 (.inl h)) (contains_of_exports hm)
        (not_pairs_module h) (ho.pairs.2 (.inr ⟨rfl, rfl⟩))
      exact ⟨hl.1, fun e _ => hready.mono hc.pairs⟩
    · rintro exports c ⟨hc, hexports⟩
      refine ⟨rfl, c, hc, fills_module c _ _, ?_⟩
      exact matches_module ho (Arena.moduleAt_addModule _ _) hc ⟨rfl, hexports⟩

theorem Spec.copyBinding (hs : Spec w n copier) (hP : w.Closed P) {binding : Binding}
    (ht : ∀ e, binding.type.Mentions e → P e)
    (hf : Fuelled w P n live a binding.type.Mentions) :
    Copying w P live (copyBinding copier binding) a fun R => binding.Copied R :=
  Copying.bind (hs.adopt hP ht hf) fun _ _ _ h => .pure ⟨h, rfl⟩

theorem Spec.copyScope (hs : Spec w n copier) (hP : w.Closed P) {id : ScopeId}
    (hid : P (.scope id)) :
    Copying w P (w.Grounded P ∧ a.Live w (n + 1) (.scope id)) (copyScope w copier id) a
      fun R copy => R (.scope id) (.scope copy) := by
  unfold Adoption.copyScope
  by_cases hglobal : id = Scopes.global
  · subst hglobal
    exact fun _ => ⟨.refl a, .inl ⟨rfl, rfl⟩⟩
  rw [if_neg (by simpa using hglobal)]
  refine Copying.get_bind ?_
  cases h : a.copied.lookup id with
  | some copy => exact fun _ => ⟨.refl a, .inr (mem_of_lookup h)⟩
  | none =>
    intro hv
    have ho := opens_scope a id { name := (w.scopes.scopeAt id).name }
    refine Gives.modifyGet_bind ?_
    refine Copying.of_opens Entry.scope ho hid (fun _ => not_pairs_scope hglobal h) ?_
    have ready (hl : w.Grounded P ∧ a.Live w (n + 1) (.scope id))
        (hne : w.scopes.scopeAt id ≠ default) : Ready w _ n :=
      hl.2.ready (fun h => ho.pairs.2 (.inl h)) (contains_of_scopeAt hne) (not_pairs_scope hglobal h)
        (ho.pairs.2 (.inr ⟨rfl, rfl⟩))
    refine Gives.bind (hs.copyParent hP (fun parent hm => hP hid (.parent hglobal hm))
      (fun hl parent hm => ⟨hl.1, ?_⟩) (ho.valid hv)) ?_
    · refine (ready hl fun hdefault => ?_).live _
      rw [hdefault] at hm
      cases hm
    rintro parent b ⟨hb, hparent⟩
    refine Gives.bind (Copying.tableMapM (fun _ _ hRS _ _ h => h.mono hRS) (fun entry hm c hc =>
      hs.copyBinding hP (fun e he => hP hid (.stored (.binding hglobal hm) he)) ?_)
      (hb.valid (ho.valid hv))) ?_
    · refine fun hl => ⟨hl.1, fun e _ => (ready hl fun hdefault => ?_).mono (hb.trans hc).pairs⟩
      rw [hdefault] at hm
      cases hm
    rintro bindings c ⟨hc, hbindings⟩
    refine ⟨rfl, c, hb.trans hc, fills_scope c _ _, ?_⟩
    refine matches_scope ho (getD_push_size _ _) (hb.trans hc) ?_
    exact
      { name := rfl, redirects := rfl
        parent := optionRel_imp hparent fun _ _ h => hc.pairs h
        bindings := hbindings }

theorem spec_copierUpTo (w : World) (n : Nat) : Spec w n (copierUpTo w n) := by
  induction n with
  | zero =>
    refine ⟨?_, ?_, ?_, ?_, ?_⟩ <;> intro P a id _ _ _ <;> refine ⟨rfl, fun hl => ?_⟩
    · obtain ⟨waiting, -, h⟩ := hl.2
      omega
    all_goals
      have h := hl.2
      simp only [Live] at h
      omega
  | succ n ih =>
    exact
      { cls := fun hP hid => ih.copyClass hP hid
        object := fun hP hid => ih.copyObject hP hid
        function := fun hP hid => ih.copyFunction hP hid
        module := fun hP hid => ih.copyModule hP hid
        scope := fun hP hid => ih.copyScope hP hid }

theorem ready_copier (w : World) (a : Adoption) :
    a.Ready w ((w.entryCount + 4) * (w.entryCount + 4)) := by
  have hmissing := Nat.mul_le_mul_right (w.arena.classes.size + 4) (missing_le_entryCount w a)
  have hclasses : w.arena.classes.size ≤ w.entryCount := by
    unfold World.entryCount
    omega
  have hcount := Nat.mul_le_mul_left w.entryCount (Nat.add_le_add_right hclasses 4)
  have hsquare : (w.entryCount + 4) * (w.entryCount + 4) =
      w.entryCount * (w.entryCount + 4) + 4 * (w.entryCount + 4) := Nat.add_mul _ _ _
  unfold Ready
  omega

/-- Adopting a type extends the adoption with copies of whatever the type leads to, and gives the
copy of the type. It ends if no class among those is its own base. -/
theorem copying_adopt (hP : w.Closed P) {t : Ty} (ht : ∀ e, t.Mentions e → P e) :
    Copying w P (w.Grounded P) (Adoption.adopt (Adoption.copier w) t) a fun R => t.Copied R :=
  (spec_copierUpTo w _).adopt hP ht fun hl => ⟨hl, fun _ _ => ready_copier w a⟩

end Adoption

end Credence

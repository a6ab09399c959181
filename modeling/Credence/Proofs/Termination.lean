import Credence.Proofs.Correspondence

namespace Credence

def Expr.ownSites (e : Expr) : List (Nat × String) :=
  match e.form with
  | .lambda _ _ => [(e.line, "<lambda>")]
  | _ => []

def Expr.sites (e : Expr) : List (Nat × String) :=
  e.ownSites ++ e.children.attach.flatMap fun ⟨k, _⟩ => k.sites
termination_by sizeOf e
decreasing_by exact sizeOf_lt_of_mem_children ‹_›

def Stmt.ownSites (s : Stmt) : List (Nat × String) :=
  match s.form with
  | .functionDef definition => [(definition.span.line, definition.name)]
  | _ => []

def bodySites : List Stmt → List (Nat × String)
  | [] => []
  | s :: rest =>
    s.ownSites ++ (s.expressions ++ s.keywordValues).flatMap Expr.sites ++
      s.blocks.attach.flatMap (fun ⟨b, _⟩ => bodySites b) ++ bodySites s.definitionBody ++
      bodySites rest
termination_by body => sizeOf body
decreasing_by
  · have := Stmt.sizeOf_lt_of_mem_blocks ‹_›
    simp only [List.cons.sizeOf_spec]
    omega
  · have := Stmt.sizeOf_definitionBody_lt s
    simp only [List.cons.sizeOf_spec]
    omega
  · simp only [List.cons.sizeOf_spec]
    omega

def FunctionBody.sites : FunctionBody → List (Nat × String)
  | .statements definition => bodySites definition.body
  | .lambda value => value.sites

theorem flatMap_attach {α β : Type} (xs : List α) (f : α → List β) :
    (xs.attach.flatMap fun ⟨x, _⟩ => f x) = xs.flatMap f := by
  simp only [List.flatMap_def]
  exact congrArg List.flatten List.attach_map_val

theorem Expr.sites_eq (e : Expr) : e.sites = e.ownSites ++ e.children.flatMap sites := by
  rw [sites]
  exact congrArg (e.ownSites ++ ·) (flatMap_attach _ _)

theorem bodySites_cons (s : Stmt) (rest : List Stmt) :
    bodySites (s :: rest) =
      s.ownSites ++ (s.expressions ++ s.keywordValues).flatMap Expr.sites ++
        s.blocks.flatMap bodySites ++ bodySites s.definitionBody ++ bodySites rest := by
  rw [bodySites]
  exact congrArg (s.ownSites ++ _ ++ · ++ bodySites s.definitionBody ++ bodySites rest)
    (flatMap_attach _ _)

theorem length_flatMap_le {α β : Type} {l : List α} {f : α → List β} {size : α → Nat}
    (h : ∀ x ∈ l, (f x).length ≤ size x) : (l.flatMap f).length ≤ (l.map size).sum := by
  induction l with
  | nil => exact Nat.le_refl _
  | cons x l ih =>
    rw [List.flatMap_cons, List.length_append, List.map_cons, List.sum_cons]
    exact Nat.add_le_add (h x (by simp)) (ih fun y hy => h y (by simp [hy]))

theorem Expr.length_ownSites_le (e : Expr) : e.ownSites.length ≤ 1 := by
  unfold ownSites
  split
  · exact Nat.le_refl _
  · exact Nat.zero_le _

theorem Stmt.length_ownSites_le (s : Stmt) : s.ownSites.length ≤ 1 := by
  unfold ownSites
  split
  · exact Nat.le_refl _
  · exact Nat.zero_le _

theorem Expr.weight_pos (e : Expr) : 0 < e.weight := by
  rw [weight_eq]
  exact Nat.add_pos_left e.form.own_pos _

theorem Expr.length_sites_le (e : Expr) : e.sites.length ≤ e.weight := by
  have hchildren : (e.children.flatMap sites).length ≤ (e.children.map weight).sum :=
    length_flatMap_le fun k _ => k.length_sites_le
  rw [sites_eq, weight_eq, List.length_append]
  exact Nat.add_le_add (Nat.le_trans e.length_ownSites_le e.form.own_pos) hchildren
termination_by sizeOf e
decreasing_by exact sizeOf_lt_of_mem_children ‹_›

theorem length_bodySites_le (body : List Stmt) : (bodySites body).length ≤ bodyWeight body := by
  match body with
  | [] => rw [bodySites]; exact Nat.zero_le _
  | s :: rest =>
    have hown := s.length_ownSites_le
    have hexprs := length_flatMap_le (l := s.expressions ++ s.keywordValues)
      fun e _ => e.length_sites_le
    have hblocks : (s.blocks.flatMap bodySites).length ≤ (s.blocks.map bodyWeight).sum :=
      length_flatMap_le fun b _ => length_bodySites_le b
    have hinner := length_bodySites_le s.definitionBody
    have hrest := length_bodySites_le rest
    rw [bodySites_cons, bodyWeight_cons]
    simp only [List.length_append] at hexprs ⊢
    omega
termination_by sizeOf body
decreasing_by
  · have := Stmt.sizeOf_lt_of_mem_blocks ‹_›
    simp only [List.cons.sizeOf_spec]
    omega
  · have := Stmt.sizeOf_definitionBody_lt s
    simp only [List.cons.sizeOf_spec]
    omega
  · simp only [List.cons.sizeOf_spec]
    omega

theorem FunctionBody.length_sites_lt (body : FunctionBody) : body.sites.length < body.weight := by
  cases body with
  | statements definition => exact Nat.lt_succ_of_le (length_bodySites_le _)
  | lambda value => exact Nat.lt_succ_of_le value.length_sites_le

/-- The key of a function that is defined at a site in a file. -/
def siteKey (file : String) (site : Nat × String) : String :=
  file ++ ":" ++ toString site.1 ++ ":" ++ site.2

section Range

-- The keys of the functions that can be called, and a bound for the weights of bodies.
variable (keys : List String) (size : Nat)

/-- A body with definitions that have keys, of a function that has one itself. -/
structure Covered (file : String) (body : FunctionBody) (line : Nat) (name : String) : Prop where
  key : siteKey file (line, name) ∈ keys
  sites : ∀ site ∈ body.sites, siteKey file site ∈ keys
  weight : body.weight ≤ size

abbrev CoveredFunction (f : FunctionInfo) : Prop :=
  Covered keys size f.file f.body f.line f.name

structure CoveredExpr (file : String) (n : Nat) (e : Expr) : Prop where
  sites : ∀ site ∈ e.sites, siteKey file site ∈ keys
  weight : e.weight ≤ n

structure CoveredBlock (file : String) (n : Nat) (b : List Stmt) : Prop where
  sites : ∀ site ∈ bodySites b, siteKey file site ∈ keys
  weight : bodyWeight b < n

/-- How many functions may still be entered. -/
def Guard.free (g : Guard) : Nat :=
  keys.countP fun key => !g.isBusy key

/-- All functions that there are have keys, at most some of which are free, and the check is in some
file. -/
structure CoveredTerms (free : Nat) (file : String) (functions : Array FunctionInfo) (guard : Guard)
    (place : String) : Prop where
  place : place = file
  functions : ∀ i, CoveredFunction keys size (functions.getD i default)
  free : guard.free keys ≤ free

/-- All functions that an import can bring in have keys, and it comes to an end. -/
structure CoveredImports (c : Context) : Prop where
  functions : ∀ table, c.modules.Offers table →
    ∀ id, CoveredFunction keys size (table.world.arena.functionAt id)
  grounded : ∀ table, c.modules.Offers table → table.world.Grounded table.Exposes

end Range

section Cover

variable {keys : List String} {size n free : Nat} {file : String} {e : Expr} {b : List Stmt}

theorem CoveredExpr.child (h : CoveredExpr keys file (n + 1) e) {k : Expr} (hk : k ∈ e.children) :
    CoveredExpr keys file n k where
  sites site hsite := h.sites site <| by
    rw [Expr.sites_eq]
    exact List.mem_append_right _ (List.mem_flatMap.2 ⟨k, hk, hsite⟩)
  weight := Nat.le_of_lt_succ (Nat.lt_of_lt_of_le (Expr.weight_lt_of_mem_children hk) h.weight)

theorem CoveredExpr.mono {m : Nat} (h : CoveredExpr keys file n e) (hm : n ≤ m) :
    CoveredExpr keys file m e :=
  ⟨h.sites, Nat.le_trans h.weight hm⟩

open Discipline.Stage in
theorem CoveredExpr.evaluable (h : CoveredExpr keys file (n + 1) e) (hn : n < size) :
    Evaluable (Covered keys size file) (CoveredExpr keys file n) e where
  children k hk := h.child hk
  site params body hform := by
    have hbody : body ∈ e.children := by
      rw [Expr.children, hform]
      exact List.mem_append_right _ (List.mem_singleton_self body)
    refine ⟨h.sites _ ?_, (h.child hbody).sites, ?_⟩
    · rw [Expr.sites_eq, Expr.ownSites, hform]
      exact List.mem_append_left _ (List.mem_singleton_self _)
    · exact Nat.le_trans (Nat.succ_le_succ (h.child hbody).weight) hn

theorem CoveredBlock.mono {m : Nat} (h : CoveredBlock keys file n b) (hm : n ≤ m) :
    CoveredBlock keys file m b :=
  ⟨h.sites, Nat.lt_of_lt_of_le h.weight hm⟩

theorem CoveredBlock.part (h : CoveredBlock keys file (n + 1) b) {s : Stmt} (hs : s ∈ b) :
    (∀ site ∈ s.ownSites, siteKey file site ∈ keys) ∧
      (∀ e ∈ s.expressions ++ s.keywordValues, CoveredExpr keys file n e) ∧
      (∀ inner ∈ s.blocks, CoveredBlock keys file n inner) ∧
      CoveredBlock keys file n s.definitionBody := by
  induction b with
  | nil => cases hs
  | cons head rest ih =>
    have hsites := h.sites
    have hweight := h.weight
    rw [bodySites_cons] at hsites
    rw [bodyWeight_cons] at hweight
    rcases List.mem_cons.1 hs with rfl | hs
    · simp only [List.mem_append, List.mem_flatMap] at hsites
      refine ⟨fun site hsite => ?_, fun e he => ⟨fun site hsite => ?_, ?_⟩,
        fun inner hinner => ⟨fun site hsite => ?_, ?_⟩, fun site hsite => ?_, ?_⟩
      · exact hsites site (.inl (.inl (.inl (.inl hsite))))
      · exact hsites site (.inl (.inl (.inl (.inr ⟨e, List.mem_append.1 he, hsite⟩))))
      · have := List.single_le_sum (fun _ _ => Nat.zero_le _) _ (List.mem_map_of_mem (f := Expr.weight) he)
        omega
      · exact hsites site (.inl (.inl (.inr ⟨inner, hinner, hsite⟩)))
      · have := List.single_le_sum (fun _ _ => Nat.zero_le _) _ (List.mem_map_of_mem (f := bodyWeight) hinner)
        omega
      · exact hsites site (.inl (.inr hsite))
      · omega
    · refine ih ⟨fun site hsite => ?_, by omega⟩ hs
      exact hsites site (List.mem_append_right _ hsite)

open Discipline.Stage in
theorem CoveredBlock.checkable (h : CoveredBlock keys file (n + 1) b) (hn : n < size) {s : Stmt}
    (hs : s ∈ b) :
    Checkable (Covered keys size file) (CoveredExpr keys file n) (CoveredBlock keys file n) s := by
  obtain ⟨hown, hexprs, hblocks, hbody⟩ := h.part hs
  refine ⟨fun e he => hexprs e (List.mem_append_left _ he),
    fun e he => hexprs e (List.mem_append_right _ he), hblocks, fun d hd => ?_, fun d hd => ?_⟩
  · rw [Stmt.definitionBody, hd] at hbody
    exact hbody
  · rw [Stmt.definitionBody, hd] at hbody
    refine ⟨hown _ ?_, hbody.sites, Nat.le_trans hbody.weight (Nat.le_of_lt hn)⟩
    rw [Stmt.ownSites, hd]
    exact List.mem_singleton_self _

theorem Guard.free_enter {g g' : Guard} {key : String} (h : g.enter? key = some g')
    (hkey : key ∈ keys) : g'.free keys < g.free keys := by
  unfold enter? at h
  split at h
  · cases h
  · rename_i hbusy
    cases h
    refine Arena.countP_lt_of_mem (x := key) (fun other hother => ?_) hkey ?_ ?_
    · simp only [isBusy, List.contains_cons, Bool.not_or, Bool.and_eq_true] at hother ⊢
      exact hother.2
    · simp [isBusy]
    · simpa using hbusy

end Cover

section Levels

open Discipline Check

variable {keys : List String} {size : Nat} {c : Context}

/-- A run of a discipline does not end because its fuel has run out. -/
def Lasting (stop : Stop) : Prop :=
  stop ≠ .exhausted

theorem CoveredTerms.remember {free : Nat} {file place : String} {functions : Array FunctionInfo}
    {guard : Guard} (h : CoveredTerms keys size free file functions guard place) (id : FunctionId)
    (key : CallKey) (result : Ty) :
    CoveredTerms keys size free file (functions.modify id.val (·.remember key result)) guard place where
  place := h.place
  functions i := getD_modify_rec (p := CoveredFunction keys size) (h.functions i) fun _ => h.functions i
  free := h.free

theorem fair_coveredTerms (h : CoveredImports keys size c) (free : Nat) (file : String) :
    Terms.Fair (CoveredTerms keys size free file) Lasting c (Covered keys size file) where
  fault _ := nofun
  define {functions guard f} hterms _ hsite :=
    { place := hterms.place
      functions := fun i => getD_push_rec (p := CoveredFunction keys size)
        (fun _ => hterms.functions i) fun _ => by rwa [CoveredFunction, hterms.place]
      free := hterms.free }
  takeIn {table a b guard file'} hoffers hterms htaken :=
    { place := hterms.place
      functions := htaken.forall_functions hterms.functions fun {original R copy} hcopied => by
        have hcovered := h.functions table hoffers original
        rw [← hcopied.same] at hcovered
        exact hcovered
      free := hterms.free }
  grounded hoffers := .inl (h.grounded _ hoffers)

theorem CoveredFunction.met {f : FunctionInfo} (h : CoveredFunction keys size f) :
    Met (CoveredExpr keys f.file size) (CoveredBlock keys f.file size) f.body := by
  have hweight := h.weight
  have hsites := h.sites
  cases hbody : f.body with
  | statements definition =>
    rw [hbody] at hweight hsites
    exact ⟨hsites, hweight⟩
  | lambda value =>
    rw [hbody] at hweight hsites
    exact ⟨hsites, Nat.le_of_succ_le hweight⟩

theorem callable_coveredTerms {free : Nat} {file : String} {inner other : Inner}
    (hlower : ∀ less, free = less + 1 → ∀ file', (balance (CoveredTerms keys size less file') Lasting).Level c
      (Covered keys size file') (CoveredExpr keys file' size) (CoveredBlock keys file' size) inner other) :
    Callable (CoveredTerms keys size free file) Lasting c inner other where
  body {s id f guard} hs hf hguard := by
    have hcovered : CoveredFunction keys size f := hf ▸ hs.functions id.val
    have hfewer : guard.free keys < s.guard.free keys := Guard.free_enter hguard hcovered.key
    obtain ⟨less, rfl⟩ : ∃ less, free = less + 1 := ⟨free - 1, by have := hs.free; omega⟩
    refine ⟨CoveredTerms keys size less f.file, ⟨rfl, hs.functions, ?_⟩,
      (hlower less rfl f.file).evaluateBody (CoveredFunction.met hcovered), fun functions hback => ?_⟩
    · have := hs.free
      omega
    · exact ⟨hs.place, hback.functions, hs.free⟩
  remember {s t id f guard arguments inferred} _ _ _ _ ht := ht.remember id _ _

/-- Fuel that lasts for whatever is smaller than a bound, with calls in it as deep as there are free keys. -/
def fuelWith (size free n : Nat) : Nat :=
  n + 1 + free * (size + 2)

theorem level_of_fuel (h : CoveredImports keys size c) {free n m m' : Nat} (file : String)
    (hn : n ≤ size) (hm : fuelWith size free n ≤ m) (hm' : fuelWith size free n ≤ m') :
    (balance (CoveredTerms keys size free file) Lasting).Level c (Covered keys size file)
      (CoveredExpr keys file n) (CoveredBlock keys file n) (innerUpTo m) (innerUpTo m') := by
  induction m generalizing n m' free file with
  | zero => unfold fuelWith at hm; omega
  | succ m ih =>
    obtain ⟨m', rfl⟩ : ∃ k, m' = k + 1 := ⟨m' - 1, by unfold fuelWith at hm'; omega⟩
    have law := lawful_balance (fair_coveredTerms h free file)
    have smaller {k : Nat} (hk : n = k + 1) : k < size ∧
        fuelWith size free k ≤ m ∧ fuelWith size free k ≤ m' := by
      unfold fuelWith at hm hm' ⊢
      omega
    have lower (less : Nat) (hless : free = less + 1) :
        fuelWith size less size ≤ m ∧ fuelWith size less size ≤ m' := by
      unfold fuelWith at hm hm' ⊢
      rw [hless, Nat.succ_mul] at hm hm'
      omega
    exact
      { law with
        expr := fun {e} he => by
          obtain ⟨k, rfl⟩ : ∃ k, n = k + 1 :=
            ⟨n - 1, by have := he.weight; have := e.weight_pos; omega⟩
          obtain ⟨hk, hkm, hkm'⟩ := smaller rfl
          exact (ih file (Nat.le_of_lt hk) hkm hkm').exprOver (he.evaluable hk)
        block := fun {b} hb => by
          obtain ⟨k, rfl⟩ : ∃ k, n = k + 1 := ⟨n - 1, by have := hb.weight; omega⟩
          obtain ⟨hk, hkm, hkm'⟩ := smaller rfl
          exact (ih file (Nat.le_of_lt hk) hkm hkm').blockOver fun s hs => hb.checkable hk hs
        call := fun id receiver args => by
          have callable : Callable (CoveredTerms keys size free file) Lasting c (innerUpTo m)
              (innerUpTo m') := callable_coveredTerms fun less hless file' =>
            ih file' (Nat.le_refl size) (lower less hless).1 (lower less hless).2
          exact callable.callOver law id receiver args
        children := fun he hk => (he.mono (Nat.le_succ n)).child hk }

end Levels

def Discipline.stopping (stop : Stop → Prop) : Discipline where
  inv _ := True
  le _ _ := True
  stop := stop
  le_refl _ := trivial
  le_trans _ _ := trivial

open Discipline CheckM in
/-- A block goes on after a fault, and stops for nothing else than missing fuel. -/
theorem Check.stop_blockOver (inner : Inner) (body : List Stmt) (c : Context) (s : Session) {stop : Stop}
    (h : ((blockOver inner body).outcome c s).1 = .error stop) : stop = .exhausted := by
  have hholds : (stopping (· = .exhausted)).Holds c (blockOver inner body) (blockOver inner body) := by
    have attempted (stmt : Stmt) : (stopping (· = .exhausted)).Holds c (attempt (checkStmt inner stmt))
        (attempt (checkStmt inner stmt)) :=
      fun t _ => .of_ok (outcome_attempt c t _) ⟨trivial, trivial⟩
    refine Holds.bind (.forIn fun stmt _ _ => (attempted stmt).bind fun result => ?_) fun _ =>
      .modify fun _ _ => ⟨trivial, trivial⟩
    rcases result with (fault | _) | _
    · refine Holds.get.bind fun _ => Holds.bind (.modify fun _ _ => ⟨trivial, trivial⟩) fun _ => .pure _
    · exact Holds.bind (.throw rfl) fun _ => .pure _
    · exact .pure _
  exact (hholds s trivial).stop stop h

def FunctionInfo.keys (f : FunctionInfo) : List String :=
  f.guardKey :: f.body.sites.map (siteKey f.file)

def World.keys (w : World) : List String :=
  w.arena.functions.toList.flatMap FunctionInfo.keys

theorem FunctionInfo.length_keys_le (f : FunctionInfo) : f.keys.length ≤ f.body.weight := by
  rw [keys, List.length_cons, List.length_map]
  exact f.body.length_sites_lt

theorem World.weight_eq (w : World) :
    w.weight = (w.arena.functions.toList.map (·.body.weight)).sum := by
  rw [weight, ← Array.foldl_toList, foldl_weights fun f : FunctionInfo => f.body.weight]
  exact Nat.zero_add _

theorem World.length_keys_le (w : World) : w.keys.length ≤ w.weight := by
  rw [weight_eq]
  exact length_flatMap_le fun f _ => f.length_keys_le

theorem World.covered {w : World} {keys : List String} {size : Nat} (hkeys : w.keys ⊆ keys)
    (hweight : w.weight ≤ size) {f : FunctionInfo} (hf : f ∈ w.arena.functions.toList) :
    CoveredFunction keys size f where
  key := hkeys (List.mem_flatMap.2 ⟨f, hf, List.mem_cons_self⟩)
  sites site hsite :=
    hkeys (List.mem_flatMap.2 ⟨f, hf, List.mem_cons_of_mem _ (List.mem_map_of_mem hsite)⟩)
  weight := by
    have hle := List.single_le_sum (fun _ _ => Nat.zero_le _) _
      (List.mem_map_of_mem (f := fun f : FunctionInfo => f.body.weight) hf)
    rw [World.weight_eq] at hweight
    exact Nat.le_trans hle hweight

namespace Job

open Check

variable {job : Job}

/-- The keys of all functions that a run can call. The first is that of the function which stands for
those that are not there. -/
def keys (job : Job) : List String :=
  (default : FunctionInfo).guardKey :: (bodySites job.module.body).map (siteKey job.path) ++
    job.world.keys ++ job.modules.entries.flatMap fun entry => entry.2.world.keys

/-- The nodes of all trees of which a run can check something. -/
def nodes (job : Job) : Nat :=
  bodyWeight job.module.body + job.world.weight +
    (job.modules.entries.map fun entry => entry.2.world.weight).sum + 2

theorem fuel_eq (job : Job) : job.fuel = 16 * job.nodes * job.nodes := by
  rw [fuel, fuelFor, foldl_weights fun entry : String × SymbolTable => entry.2.world.weight,
    Nat.zero_add]
  rfl

theorem length_keys_lt (job : Job) : job.keys.length < job.nodes := by
  have hbody := length_bodySites_le job.module.body
  have hworld := job.world.length_keys_le
  have hothers := length_flatMap_le (l := job.modules.entries)
    (f := fun entry => entry.2.world.keys) fun entry _ => entry.2.world.length_keys_le
  simp only [keys, nodes, List.length_append, List.length_cons, List.length_map]
  omega

theorem covered_default (job : Job) : CoveredFunction job.keys job.nodes default where
  key := List.mem_cons_self
  sites site hsite := by
    have hnone : (default : FunctionInfo).body.sites = [] := by
      change (default : Expr).sites = []
      rw [Expr.sites_eq]
      rfl
    rw [hnone] at hsite
    cases hsite
  weight := by
    have hweight : (default : FunctionInfo).body.weight = 2 := by
      change (default : Expr).weight + 1 = 2
      rw [Expr.weight_eq]
      rfl
    rw [hweight, nodes]
    exact Nat.le_add_left _ _

theorem covered_functions {w : World} (hkeys : w.keys ⊆ job.keys) (hweight : w.weight ≤ job.nodes)
    (i : Nat) : CoveredFunction job.keys job.nodes (w.arena.functions.getD i default) := by
  by_cases hi : i < w.arena.functions.size
  · rw [Array.getD, dif_pos hi]
    exact World.covered hkeys hweight (Array.getElem_mem_toList hi)
  · rw [getD_of_not_lt hi]
    exact job.covered_default

theorem covered_offered {table : SymbolTable} (h : job.modules.Offers table) (id : FunctionId) :
    CoveredFunction job.keys job.nodes (table.world.arena.functionAt id) := by
  obtain ⟨path, hmem⟩ := h.mem
  refine covered_functions (fun key hkey => ?_) ?_ id.val
  · exact List.mem_append_right _ (List.mem_flatMap.2 ⟨_, hmem, hkey⟩)
  · have hle : table.world.weight ≤ (job.modules.entries.map fun entry => entry.2.world.weight).sum :=
      List.single_le_sum (fun _ _ => Nat.zero_le _) _ (List.mem_map.2 ⟨_, hmem, rfl⟩)
    unfold nodes
    omega

theorem coveredTerms_start (job : Job) :
    job.start.2.Meets (CoveredTerms job.keys job.nodes job.keys.length job.path) where
  place := rfl
  functions i := by
    refine covered_functions (w := job.world) (fun key hkey => ?_) ?_ i
    · exact List.mem_append_left _ (List.mem_append_right _ hkey)
    · unfold nodes
      omega
  free := List.countP_le_length

theorem Proper.coveredImports (h : job.Proper) : CoveredImports job.keys job.nodes job.context where
  functions _ hoffers := covered_offered hoffers
  grounded _ hoffers :=
    have ⟨_, hmem⟩ := hoffers.mem
    (h.modules _ hmem).sound.world.grounded _

theorem coveredBlock (job : Job) : CoveredBlock job.keys job.path job.nodes job.module.body where
  sites site hsite := List.mem_append_left _ (List.mem_append_left _
    (List.mem_cons_of_mem _ (List.mem_map_of_mem hsite)))
  weight := by
    unfold nodes
    omega

/-- However much fuel there is beyond that of a run, the check of the module ends in the same way, and not
because the fuel runs out. -/
theorem Proper.lasting (h : job.Proper) {n : Nat} (hn : job.fuel ≤ n) :
    ((innerUpTo job.fuel).block job.module.body).outcome job.context job.start.2 =
        ((innerUpTo n).block job.module.body).outcome job.context job.start.2 ∧
      (((innerUpTo job.fuel).block job.module.body).outcome job.context job.start.2).1 ≠
        .error .exhausted := by
  have hfuel : fuelWith job.nodes job.keys.length job.nodes ≤ job.fuel := by
    have hkeys := Nat.mul_le_mul_right (job.nodes + 2) (Nat.le_of_lt job.length_keys_lt)
    have htwo : 2 ≤ job.nodes := Nat.le_add_left _ _
    have hsquare := Nat.mul_le_mul_right job.nodes htwo
    rw [fuel_eq, fuelWith, Nat.mul_assoc 16]
    rw [Nat.mul_add job.nodes] at hkeys
    omega
  have hlevel := level_of_fuel h.coveredImports job.path (Nat.le_refl _) hfuel (Nat.le_trans hfuel hn)
  have hruns := hlevel.block job.coveredBlock job.start.2 job.coveredTerms_start
  exact ⟨hruns.same, fun hexhausted => hruns.stop _ hexhausted rfl⟩

def runUpTo (job : Job) (n : Nat) : Except Stop Outcome :=
  match ((innerUpTo n).block job.module.body).outcome job.context job.start.2 with
  | (.ok _, final) => .ok
      { table := ⟨final.world, job.start.1, job.path⟩, events := final.events }
  | (.error stop, _) => .error stop

/-- A run comes to an end, whatever the functions in it call, and it would end in the same way were calls,
blocks and expressions allowed to lie within one another deeper. -/
theorem Proper.run_terminates (h : job.Proper) :
    ∃ outcome, job.run = .ok outcome ∧ ∀ n, job.fuel ≤ n → job.runUpTo n = .ok outcome := by
  have hrun : job.run = job.runUpTo job.fuel := job.run_eq
  have hmore (n : Nat) (hn : job.fuel ≤ n) : job.runUpTo n = job.run := by
    rw [hrun, runUpTo, runUpTo, (h.lasting hn).1]
  have hlasts := (h.lasting (Nat.le_refl _)).2
  obtain ⟨n, hn⟩ : ∃ n, job.fuel = n + 1 := by
    have hnodes : 0 < job.nodes := Nat.succ_pos _
    have hpos : 0 < 16 * job.nodes * job.nodes :=
      Nat.mul_pos (Nat.mul_pos (Nat.succ_pos 15) hnodes) hnodes
    exact ⟨job.fuel - 1, by rw [fuel_eq]; omega⟩
  cases hout : ((innerUpTo job.fuel).block job.module.body).outcome job.context job.start.2 with
  | mk result final =>
    cases result with
    | ok value =>
      have hok : job.run = .ok ⟨⟨final.world, job.start.1, job.path⟩, final.events⟩ := by
        rw [hrun, runUpTo, hout]
      exact ⟨_, hok, fun n hn => (hmore n hn).trans hok⟩
    | error stop =>
      rw [hout] at hlasts
      rw [hn] at hout
      have hstop := stop_blockOver (innerUpTo n) job.module.body job.context job.start.2 (congrArg Prod.fst hout)
      exact absurd (congrArg Except.error hstop) hlasts

/-- A run on an import of an object, on a function that calls itself, and on two that call each other. -/
def recursive : Job :=
  let name (id : Nat) (x : String) : Expr := ⟨id, .name x, default⟩
  let call (id : Nat) (func arg : Expr) : Expr := ⟨id, .call func [arg] [], default⟩
  let function (id : Nat) (f callee : String) : Stmt :=
    ⟨id, .functionDef
      { name := f, params := { args := [⟨"n", none, default⟩] }
        body := [⟨id + 1, .ret (some (call (id + 2) (name (id + 3) callee) (name (id + 4) "n"))), default⟩]
        returns := none, decorators := [], isAsync := false, span := default }, default⟩
  { empty with
    module :=
      { body := [
          ⟨0, .importFrom "relay" [⟨"c", none⟩] 0, default⟩,
          function 1 "f" "f", function 6 "g" "h", function 11 "h" "g",
          ⟨16, .expr (call 17 (name 18 "f") (name 19 "c")), default⟩,
          ⟨20, .expr (call 21 (name 22 "g") (name 23 "c")), default⟩]
        file := "", span := default }
    modules := ⟨[("relay", relayed)]⟩ }

theorem proper_recursive : recursive.Proper where
  parent _ h := absurd h (Option.not_mem_none _)
  modules entry hentry := by
    change entry ∈ [("relay", relayed)] at hentry
    rw [List.mem_singleton] at hentry
    simp only [hentry, produced_relayed]
  plain table hoffers := by
    obtain ⟨path, hmem⟩ := hoffers.mem
    change (path, table) ∈ [("relay", relayed)] at hmem
    rw [List.mem_singleton, Prod.mk.injEq] at hmem
    rw [hmem.2]
    exact plain_relayed
  hints _ _ h := absurd h nofun

/-- The functions that come with the object are not called, and the other three are. -/
theorem terminates_recursive : recursive.Proper ∧
    (recursive.final.arena.functions.toList.map fun f => f.calls.length) = [0, 0, 0, 1, 1, 1] ∧
    ∃ outcome, recursive.run = .ok outcome ∧
      ∀ n, recursive.fuel ≤ n → recursive.runUpTo n = .ok outcome := by
  have hcalled : (recursive.final.arena.functions.toList.map fun f => f.calls.length) = [0, 0, 0, 1, 1, 1] := by
    decide +kernel
  exact ⟨proper_recursive, hcalled, proper_recursive.run_terminates⟩

end Job

/-- Taking in a class that is among its own bases has no end: the bases of a class come first. -/
theorem Adoption.endless_of_own_base :
    let w : World := { arena := { classes := #[{ name := some "D", bases := [⟨0⟩] }] } }
    ∀ n, ((copierUpTo w n).cls ⟨0⟩).run { arena := {}, scopes := {} } = .error .exhausted := by
  intro w n
  induction n with
  | zero => rfl
  | succ n ih =>
    -- It has no copy yet, so its bases are copied first, and these are the class again.
    have hbases : (w.arena.classAt ⟨0⟩).bases = [⟨0⟩] := rfl
    rw [copierUpTo]
    simp only [copyClass, hbases, List.mapM_cons, StateT.run_bind, StateT.run_get, pure_bind,
      List.lookup_nil, ih]
    rfl

end Credence

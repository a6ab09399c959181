import Credence.Proofs.Level

namespace Credence

open Check
open CheckM (outcome_modify outcome_modifyGet outcome_attempt)

theorem Session.encloses_captured (s : Session) :
    s.scopes.Encloses
      (match s.classScopes.head?.filter fun entry => (s.scopes.chain s.scopes.current).contains entry.1 with
        | some (scope, _) => (s.scopes.scopeAt scope).parent.getD Scopes.global
        | none => s.scopes.current) := by
  split
  · rename_i scope cls h
    obtain ⟨-, hmem⟩ := Option.filter_eq_some_iff.1 h
    exact Scopes.encloses_parent (List.contains_iff_mem.1 hmem)
  · exact s.scopes.encloses_current

def StmtForm.handlerLines {σ : Type} : StmtForm σ → List Nat
  | tryExcept _ handlers _ _ => handlers.map (·.span.line)
  | _ => []

/-- The lines to which a check of a statement goes, apart from the statements in its blocks. -/
def Stmt.ownLines (s : Stmt) : List Nat :=
  s.line :: s.form.handlerLines

abbrev Discipline.Reaches (D : Discipline) (c : Context) (line : Nat) : Prop :=
  D.Holds c (CheckM.modifyHub (·.setLine line)) (CheckM.modifyHub (·.setLine line))

namespace Check

/-- Makes the class of a definition, with no more attributes than those of receivers. -/
def makeClass (inner : Inner) (definition : ClassDef Stmt) : CheckM ClassId := do
  for decorator in definition.decorators do
    let _ ← inner.expr decorator
  let (bases, hasUnknownBase) ← checkBases inner definition.bases
  for keyword in definition.keywords do
    let _ ← inner.expr keyword.value
  let file := (← get).hub.cursor.file
  CheckM.withArena (·.addClass
    { name := some definition.name, bases, hasUnknownBase
      isDecorated := !definition.decorators.isEmpty
      attributes := .ofList (definition.receiverAttributes.map fun name =>
        (name, .value .undefined))
      line := definition.span.line, file })

/-- Makes the class of a definition with the members that its body gives, and binds no name. -/
def defineClass (inner : Inner) (definition : ClassDef Stmt) : CheckM ClassId := do
  let id ← makeClass inner definition
  let members ← CheckM.inClassBody definition.name id fun scope => do
    inner.block definition.body
    return ((← CheckM.getScopes).scopeAt scope).bindings.entries
  CheckM.modifyArena (·.modifyClass id fun c =>
    { c with attributes := c.attributes.insertMany (members.map fun (name, b) =>
        (name, .ofType b.type)) })
  return id

def bindClass (inner : Inner) (definition : ClassDef Stmt) (id : ClassId) : CheckM Unit := do
  CheckM.bindName definition.name (.classObj id) 1.0
  if (← read).settings.eagerCheckAnnotated then eagerCheckMethods inner id

theorem checkClassDef_eq (inner : Inner) (definition : ClassDef Stmt) :
    checkClassDef inner definition = defineClass inner definition >>= bindClass inner definition := by
  simp only [checkClassDef, defineClass, makeClass, bindClass, bind_assoc, pure_bind]

end Check

namespace Discipline.Stage

open Discipline.Basic

variable {D : Discipline} {c : Context} {N : Sites} {E : Expr → Prop} {B : List Stmt → Prop}
  {inner other : Inner}

/-- A statement whose parts may be met inside, and which may be defined if it is a function. -/
structure Checkable (N : Sites) (E : Expr → Prop) (B : List Stmt → Prop) (s : Stmt) : Prop where
  expressions : ∀ e ∈ s.form.expressions, E e
  keywords : ∀ e ∈ s.keywordValues, E e
  blocks : ∀ b ∈ s.form.blocks, B b
  body : ∀ d, s.form = .classDef d → B d.body
  site : ∀ d, s.form = .functionDef d → N (.statements d) d.span.line d.name

theorem Checkable.imp {F : Expr → Prop} {C : List Stmt → Prop} {s : Stmt} (hs : Checkable N E B s)
    (he : ∀ e, E e → F e) (hb : ∀ b, B b → C b) : Checkable N F C s where
  expressions e hm := he e (hs.expressions e hm)
  keywords e hm := he e (hs.keywords e hm)
  blocks b hm := hb b (hs.blocks b hm)
  body d hd := hb d.body (hs.body d hd)
  site := hs.site

variable (L : D.Stage c N E B inner other)
include L

theorem decorated {definition : FunctionDef Stmt} (id : FunctionId)
    (h : ∀ e ∈ definition.decorators, E e) :
    D.Holds c (Check.decorated inner definition id) (Check.decorated other definition id) := by
  refine .foldlM fun decorator hd value => ?_
  cases value with
  | none => exact .pure _
  | some value =>
    simp only
    split
    all_goals first
      | exact .pure _
      | exact getArena.bind fun arena => .pure _
      | skip
    refine (L.expr (h decorator (List.mem_reverse.1 hd))).bind fun t => ?_
    exact (L.callType t _).bind fun result => .pure _

theorem eagerCheck (id : FunctionId) (receiver : Option Ty) :
    D.Holds c (Check.eagerCheck inner id receiver) (Check.eagerCheck other id receiver) :=
  getArena.bind fun _ => (L.call id receiver _).bind fun _ => .pure _

theorem reportMissingReturn (definition : FunctionDef Stmt) (facts : ReturnFacts)
    (declared? : Option Ty) :
    D.Holds c (Check.reportMissingReturn definition facts declared?)
      (Check.reportMissingReturn definition facts declared?) := by
  cases declared? with
  | none => exact .pure _
  | some declared =>
    unfold Check.reportMissingReturn
    simp only
    split
    · refine (display declared).bind fun shown => L.modifyHub (fun h => ?_) fun h => ?_
      · exact h.cursor_reportAt _ _
      · exact h.suppressions_reportAt _ _
    · exact .pure _

theorem checkFunctionDef {definition : FunctionDef Stmt}
    (hd : ∀ e ∈ definition.decorators, E e) (hp : ∀ e ∈ definition.params.defaultExprs, E e)
    (hsite : N (.statements definition) definition.span.line definition.name) :
    D.Holds c (Check.checkFunctionDef inner definition)
      (Check.checkFunctionDef other definition) := by
  refine .get_bind fun s hs => .get_bind ?_
  have captured := s.encloses_captured
  refine L.bind_enclosed (L.signatureOf hp) hs captured fun signature s hs captured => ?_
  refine L.bind_enclosed (.optionMapM fun e _ => L.ascription e) hs captured
    fun declared s hs captured => ?_
  refine L.bind_enclosed (L.reportMissingReturn definition _ declared) hs captured
    fun _ s hs captured => .get_bind ?_
  refine Ends.bind (.of_ok (outcome_modifyGet c s _) ?_) fun id t _ ht => ?_
  · exact L.define hs ⟨rfl, rfl, rfl, captured, hsite⟩
  refine Holds.bind (L.decorated id hd) (fun value => ?_) t ht
  cases value with
  | none => exact .pure _
  | some value =>
    refine (L.bindName _ value _).bind fun _ => Holds.read.bind fun context => ?_
    simp only
    split
    · exact L.eagerCheck id none
    · exact .pure _

theorem checkBases {bases : List Expr} (h : ∀ e ∈ bases, E e) :
    D.Holds c (Check.checkBases inner bases) (Check.checkBases other bases) := by
  refine .foldlM fun base hb state => ?_
  rcases state with ⟨known, unknown⟩
  simp only
  split
  · exact .pure _
  · refine (L.expr (h base hb)).bind fun t => ?_
    cases t <;> exact .pure _

theorem methodReceiver (id : ClassId) (kind : MethodKind) :
    D.Holds c (Check.methodReceiver id kind) (Check.methodReceiver id kind) := by
  unfold Check.methodReceiver
  split
  · exact .pure _
  · exact (L.addObject id).map _

theorem eagerCheckMethods (id : ClassId) :
    D.Holds c (Check.eagerCheckMethods inner id) (Check.eagerCheckMethods other id) := by
  refine getArena.bind fun arena => Holds.bind (.forIn fun f _ _ => ?_) fun _ => .pure _
  refine getArena.bind fun arena => ?_
  simp only
  cases (arena.functionAt f).body with
  | lambda value => exact .pure _
  | statements definition =>
    simp only
    split
    · split
      · exact (L.eagerCheck f none).bind fun _ => .pure _
      · split
        · refine (L.methodReceiver id _).bind fun receiver => ?_
          exact (L.eagerCheck f (some receiver)).bind fun _ => .pure _
        · exact .pure _
    · exact .pure _

theorem makeClass {definition : ClassDef Stmt} (hd : ∀ e ∈ definition.decorators, E e)
    (hb : ∀ e ∈ definition.bases, E e) (hk : ∀ k ∈ definition.keywords, E k.value) :
    D.Holds c (Check.makeClass inner definition) (Check.makeClass other definition) := by
  refine Holds.bind (.forIn fun e he _ => ?_) fun _ => ?_
  · exact (L.expr (hd e he)).bind fun _ => .pure _
  refine (L.checkBases hb).bind fun bases => ?_
  refine Holds.bind (.forIn fun k hkeyword _ => ?_) fun _ => ?_
  · exact (L.expr (hk k hkeyword)).bind fun _ => .pure _
  exact Holds.get.bind fun s => L.withArena fun _ => rfl

theorem defineClass {definition : ClassDef Stmt} (hd : ∀ e ∈ definition.decorators, E e)
    (hb : ∀ e ∈ definition.bases, E e) (hk : ∀ k ∈ definition.keywords, E k.value)
    (hbody : B definition.body) :
    D.Holds c (Check.defineClass inner definition) (Check.defineClass other definition) := by
  refine (L.makeClass hd hb hk).bind fun id => Holds.bind (L.inClassBody fun scope => ?_) fun members => ?_
  · exact (L.block hbody).bind fun _ => getScopes.bind fun scopes => .pure _
  refine Holds.bind (L.modifyArena ?_) fun _ => .pure _
  intro a
  rfl

theorem bindClass (definition : ClassDef Stmt) (id : ClassId) :
    D.Holds c (Check.bindClass inner definition id) (Check.bindClass other definition id) := by
  refine (L.bindName _ _ _).bind fun _ => Holds.read.bind fun context => ?_
  split
  · exact L.eagerCheckMethods id
  · exact .pure _

theorem checkClassDef {definition : ClassDef Stmt} (hd : ∀ e ∈ definition.decorators, E e)
    (hb : ∀ e ∈ definition.bases, E e) (hk : ∀ k ∈ definition.keywords, E k.value)
    (hbody : B definition.body) :
    D.Holds c (Check.checkClassDef inner definition) (Check.checkClassDef other definition) := by
  rw [checkClassDef_eq, checkClassDef_eq]
  exact (L.defineClass hd hb hk hbody).bind fun id => L.bindClass definition id

theorem checkElse {body : List Stmt} (h : B body) :
    D.Holds c (Check.checkElse inner body) (Check.checkElse other body) := by
  unfold Check.checkElse
  split
  · exact L.inBranch (L.block h)
  · exact .pure _

theorem holdToDeclared (f : FunctionInfo) (t : Ty) (confidence : Float) :
    D.Holds c (Check.holdToDeclared f t confidence) (Check.holdToDeclared f t confidence) := by
  unfold Check.holdToDeclared
  split
  · refine getArena.bind fun arena => ?_
    simp only
    split
    · exact L.report _
    · exact .pure _
  · exact .pure _

theorem recordReturn (t : Ty) (confidence : Float) :
    D.Holds c (Check.recordReturn t confidence) (Check.recordReturn t confidence) := by
  refine Holds.get.bind fun s => ?_
  cases s.frames with
  | nil => exact .pure _
  | cons frame rest =>
    refine getArena.bind fun arena => (L.holdToDeclared _ t confidence).bind fun _ => ?_
    refine .modify fun s hs => L.minor hs ?_
    cases h : s.frames with
    | nil => exact .refl s
    | cons frame rest => exact { Session.Minor.refl s with frames := by simp [h] }

theorem checkReturn {value : Option Expr} (h : ∀ e ∈ value, E e) :
    D.Holds c (Check.checkReturn inner value) (Check.checkReturn other value) := by
  cases value with
  | none => exact Holds.read.bind fun context => L.recordReturn _ _
  | some value =>
    refine (L.expr (h value rfl)).bind fun t => (confidenceOf value).bind fun confidence => ?_
    exact L.recordReturn t confidence

theorem checkAscribed {target : Expr} (ascribed : Expr) {value : Option Expr} (ht : E target)
    (hv : ∀ e ∈ value, E e) :
    D.Holds c (Check.checkAscribed inner target ascribed value)
      (Check.checkAscribed other target ascribed value) := by
  refine (L.ascription ascribed).bind fun declared => ?_
  -- A target that is no name is assigned to as usual.
  have plain (e : Expr) (he : E e) :
      D.Holds c
        (do
          let t ← inner.expr e
          Check.assign inner target t (← CheckM.confidenceOf e) .checked)
        (do
          let t ← other.expr e
          Check.assign other target t (← CheckM.confidenceOf e) .checked) :=
    (L.expr he).bind fun t => (confidenceOf e).bind fun confidence => L.assign t _ _ ht
  cases h : target.form with
  | name name =>
    cases value with
    | none =>
      refine getScopes.bind fun scopes => ?_
      split
      · exact L.setName name declared _
      · exact .pure _
    | some value =>
      refine (L.expr (hv value rfl)).bind fun t => (confidenceOf value).bind fun confidence => ?_
      refine .get_bind fun s hs => .get_bind ?_
      refine Ends.bind (.of_ok (outcome_modify c s _) ?_) fun _ t _ ht => L.reportAll _ t ht
      exact L.minor_scopes hs (s.scopes.confined_addAscribed s.arena name declared t confidence)
  | _ =>
    cases value with
    | none => exact .pure _
    | some value => exact plain value (hv value rfl)

theorem caughtType {type : Option Expr} (h : ∀ e ∈ type, E e) :
    D.Holds c (Check.caughtType inner type) (Check.caughtType other type) := by
  cases type with
  | none => exact .pure _
  | some e =>
    refine (L.expr (h e rfl)).bind fun t => ?_
    exact (L.instanceType? t).bind fun _ => .pure _

theorem checkHandler {handler : Handler Stmt} (hline : D.Reaches c handler.span.line)
    (ht : ∀ e ∈ handler.type, E e) (hb : B handler.body) :
    D.Holds c (Check.checkHandler inner handler) (Check.checkHandler other handler) := by
  refine Holds.bind hline fun _ => (L.caughtType ht).bind fun caught => ?_
  cases handler.name with
  | none => exact L.block hb
  | some name =>
    refine (L.setName name caught _).bind fun _ => (L.block hb).bind fun _ => ?_
    exact L.modifyScopes fun s => s.confined_remove name

theorem checkTry {body : List Stmt} {handlers : List (Handler Stmt)}
    {orelse finalbody : List Stmt} (hl : ∀ h ∈ handlers, D.Reaches c h.span.line) (hb : B body)
    (ht : ∀ h ∈ handlers, ∀ e ∈ h.type, E e) (hh : ∀ h ∈ handlers, B h.body) (ho : B orelse)
    (hf : B finalbody) :
    D.Holds c (Check.checkTry inner body handlers orelse finalbody)
      (Check.checkTry other body handlers orelse finalbody) := by
  refine (L.suppressing (L.block hb)).bind fun _ => ?_
  refine Holds.bind (.forIn fun handler hm _ => ?_) fun _ => ?_
  · exact (L.checkHandler (hl handler hm) (ht handler hm) (hh handler hm)).bind fun _ => .pure _
  · exact (L.block ho).bind fun _ => L.block hf

theorem enteredType (context : Ty) :
    D.Holds c (Check.enteredType inner context) (Check.enteredType other context) := by
  cases context with
  | object id => exact (L.callSpecial id _ _).bind fun _ => .pure _
  | _ => exact .pure _

theorem checkWith {items : List WithItem} {body : List Stmt}
    (hc : ∀ item ∈ items, E item.context) (hv : ∀ item ∈ items, ∀ e ∈ item.vars, E e)
    (hb : B body) :
    D.Holds c (Check.checkWith inner items body) (Check.checkWith other items body) := by
  refine Holds.bind (.forIn fun item hm _ => ?_) fun _ => L.suppressing (L.block hb)
  refine (L.expr (hc item hm)).bind fun context => ?_
  cases h : item.vars with
  | none => exact .pure _
  | some vars =>
    refine (L.enteredType context).bind fun entered => ?_
    refine (confidenceOf item.context).bind fun confidence => ?_
    exact (L.assign entered confidence _ (hv item hm vars h)).bind fun _ => .pure _

theorem checkDelete {target : Expr} (ht : E target) :
    D.Holds c (Check.checkDelete inner target) (Check.checkDelete other target) := by
  induction target using WellFounded.induction (measure (sizeOf : Expr → Nat)).wf with
  | _ target ih =>
    have plain : D.Holds c (inner.expr target >>= fun _ => pure ())
        (other.expr target >>= fun _ => pure ()) := (L.expr ht).bind fun _ => .pure _
    rw [checkDelete.eq_def inner, checkDelete.eq_def other]
    rcases target with ⟨node, form, span⟩
    cases form with
    | name name => exact L.modifyScopes fun s => s.confined_remove name
    | member value attr =>
      have hv : E value := L.children ht (by simp [Expr.children, ExprForm.children])
      refine (L.expr hv).bind fun owner => ?_
      exact L.modifyArena fun a => a.functions_deleteAttribute owner attr
    | tuple targets | list targets =>
      refine .forM fun t _ => ?_
      exact ih t.1 (Expr.sizeOf_lt_of_mem_children t.2) (L.children ht t.2)
    | _ => exact plain

theorem checkCondition_block {test : Expr} {body : List Stmt} (ht : E test) (hb : B body) :
    D.Holds c (do Check.checkCondition inner test; inner.block body)
      (do Check.checkCondition other test; other.block body) :=
  (L.checkCondition ht).bind fun _ => L.block hb

theorem evaluateAll {es : List Expr} (h : ∀ e ∈ es, E e) :
    D.Holds c (do for e in es do let _ ← inner.expr e) (do for e in es do let _ ← other.expr e) := by
  refine Holds.bind (.forIn fun e he _ => ?_) fun _ => .pure _
  exact (L.expr (h e he)).bind fun _ => .pure _

theorem checkStmt {s : Stmt} (hs : Checkable N E B s) (hlines : ∀ line ∈ s.ownLines, D.Reaches c line)
    (hglobal : ∀ names, s.form = .globalNames names → ∀ name ∈ names,
      D.Holds c (CheckM.modifyScopes (·.declareGlobal name)) (CheckM.modifyScopes (·.declareGlobal name))) :
    D.Holds c (Check.checkStmt inner s) (Check.checkStmt other s) := by
  have part := hs.expressions
  have keyword := hs.keywords
  have blocks := hs.blocks
  refine Holds.bind (hlines s.line List.mem_cons_self) fun _ => ?_
  cases h : s.form with
  | expr value =>
    rw [h] at part
    exact (L.expr (part value (by simp [StmtForm.expressions]))).bind fun _ => .pure _
  | assign targets value =>
    rw [h] at part
    refine (L.expr (part value (by simp [StmtForm.expressions]))).bind fun t => ?_
    refine (confidenceOf value).bind fun confidence => ?_
    refine Holds.bind (.forIn fun target hm _ => ?_) fun _ => .pure _
    exact (L.assign t confidence _ (part target (by simp [StmtForm.expressions, hm]))).bind
      fun _ => .pure _
  | ascribe target ascribed value =>
    rw [h] at part
    refine L.checkAscribed ascribed (part target (by simp [StmtForm.expressions])) ?_
    intro e he
    exact part e (by simp [StmtForm.expressions, Option.mem_toList.2 he])
  | augAssign target op value =>
    rw [h] at part
    have ht : E target := part target (by simp [StmtForm.expressions])
    refine (L.expr ht).bind fun current => ?_
    refine (L.expr (part value (by simp [StmtForm.expressions]))).bind fun operand => ?_
    refine (confidenceOf target).bind fun p => (confidenceOf value).bind fun q => ?_
    exact (L.binaryResult op current operand _).bind fun result => L.assign result _ _ ht
  | ret value =>
    rw [h] at part
    exact L.checkReturn fun e he => part e (Option.mem_toList.2 he)
  | pass | brk | cont => exact .pure _
  | ifElse test body orelse | whileLoop test body orelse =>
    rw [h] at part blocks
    refine (L.inBranch ?_).bind fun _ => L.checkElse (blocks orelse (by simp [StmtForm.blocks]))
    exact L.checkCondition_block (part test (by simp [StmtForm.expressions]))
      (blocks body (by simp [StmtForm.blocks]))
  | forLoop target iter body orelse isAsync =>
    rw [h] at part blocks
    refine (L.expr (part iter (by simp [StmtForm.expressions]))).bind fun t => ?_
    refine (L.iterationType t).bind fun element => (confidenceOf iter).bind fun confidence => ?_
    refine (L.inBranch ?_).bind fun _ => L.checkElse (blocks orelse (by simp [StmtForm.blocks]))
    refine (L.assign element confidence _ (part target (by simp [StmtForm.expressions]))).bind ?_
    exact fun _ => L.block (blocks body (by simp [StmtForm.blocks]))
  | tryExcept body handlers orelse finalbody =>
    rw [h] at part blocks
    refine L.checkTry (fun k hk => hlines _ ?_) (blocks body (by simp [StmtForm.blocks]))
      (fun k hk e he => part e ?_) (fun k hk => blocks k.body ?_)
      (blocks orelse (by simp [StmtForm.blocks])) (blocks finalbody (by simp [StmtForm.blocks]))
    · refine List.mem_cons_of_mem _ ?_
      rw [h]
      exact List.mem_map.2 ⟨k, hk, rfl⟩
    · exact List.mem_filterMap.2 ⟨k, hk, he⟩
    · exact List.mem_append_left _ (List.mem_cons_of_mem _ (List.mem_map.2 ⟨k, hk, rfl⟩))
  | withItems items body isAsync =>
    rw [h] at part blocks
    refine L.checkWith (fun item hm => part _ ?_) (fun item hm e he => part e ?_)
      (blocks body (by simp [StmtForm.blocks]))
    · exact List.mem_flatMap.2 ⟨item, hm, List.mem_cons_self⟩
    · exact List.mem_flatMap.2 ⟨item, hm, List.mem_cons_of_mem _ (Option.mem_toList.2 he)⟩
  | functionDef definition =>
    rw [h] at part
    exact L.checkFunctionDef (fun e he => part e (List.mem_append_left _ he))
      (fun e he => part e (List.mem_append_right _ he)) (hs.site definition h)
  | classDef definition =>
    rw [h] at part
    refine L.checkClassDef (fun e he => part e (List.mem_append_left _ he))
      (fun e he => part e (List.mem_append_right _ he)) (fun k hk => keyword k.value ?_)
      (hs.body definition h)
    simp only [Stmt.keywordValues, h]
    exact List.mem_map.2 ⟨k, hk, rfl⟩
  | importModules names =>
    refine Holds.bind (.forIn fun a _ _ => ?_) fun _ => .pure _
    exact (L.importModule a).bind fun _ => .pure _
  | importFrom module names level => exact L.importFrom module names
  | globalNames names =>
    refine Holds.bind (.forIn fun name hname _ => ?_) fun _ => .pure _
    exact (hglobal names h name hname).bind fun _ => .pure _
  | nonlocalNames names =>
    refine Holds.bind (.forIn fun name _ _ => Holds.bind (L.modifyScopes ?_) fun _ => .pure _)
      fun _ => .pure _
    exact fun s => s.confined_declareNonlocal name
  | delete targets =>
    rw [h] at part
    refine Holds.bind (.forIn fun target hm _ => ?_) fun _ => .pure _
    exact (L.checkDelete (part target hm)).bind fun _ => .pure _
  | assert test message =>
    rw [h] at part
    refine (L.checkCondition (part test (by simp [StmtForm.expressions]))).bind fun _ => ?_
    cases message with
    | none => exact .pure _
    | some e =>
      rw [Option.forIn_some, Option.forIn_some]
      refine Holds.bind (Holds.bind ?_ fun _ => .pure _) fun _ => .pure _
      exact (L.expr (part e (by simp [StmtForm.expressions]))).bind fun _ => .pure _
  | raise exc cause =>
    rw [h] at part
    exact L.evaluateAll part

theorem blockWith {check check' : Stmt → CheckM Unit} {body : List Stmt}
    (h : ∀ s ∈ body, D.Holds c (check s) (check' s)) :
    D.Holds c (Check.blockWith check body) (Check.blockWith check' body) := by
  refine Holds.bind (.forIn fun s hm _ => ?_) fun _ => L.flush
  intro t ht
  have hstmt := h s hm t ht
  refine Ends.bind ((h s hm).attempt t ht) fun result u hu hinv => ?_
  have hresult : (check s).outcome c t = (result, u) := by
    rw [outcome_attempt] at hu
    cases hu
    rfl
  rcases result with stop | done
  · cases stop with
    | fault f =>
      exact (Holds.get.bind fun _ => (L.warn _).bind fun _ => .pure _) u hinv
    | exhausted =>
      have hstop := hstmt.stop .exhausted (by rw [hresult])
      exact (Holds.throw hstop).bind (fun _ => .pure _) u hinv
  · exact Holds.pure _ u hinv

end Discipline.Stage

namespace Discipline.Level

variable {D : Discipline} {c : Context} {N : Sites} {E : Expr → Prop} {B : List Stmt → Prop}
  {inner other : Inner} (L : D.Level c N E B inner other)
include L

theorem checkStmt {s : Stmt} (hs : Stage.Checkable N E B s) :
    D.Holds c (Check.checkStmt inner s) (Check.checkStmt other s) := by
  refine L.toStage.checkStmt hs (fun line _ => ?_) fun names _ name _ => ?_
  · exact .modify fun _ ht => L.goToLine line ht
  · exact .modify fun _ ht => L.declare name ht

theorem blockOver {body : List Stmt} (h : ∀ s ∈ body, Stage.Checkable N E B s) :
    D.Holds c (Check.blockOver inner body) (Check.blockOver other body) :=
  L.blockWith fun s hs => L.checkStmt (h s hs)

end Discipline.Level

end Credence

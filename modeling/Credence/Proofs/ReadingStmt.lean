import Credence.Proofs.ReadingExpr

namespace Credence.Grammar.Reading

open Token (Kind)

variable {α β : Type} {R : Reading}

def Lines (R : Reading) (n : Nat) (line : Parser (List Stmt)) : Prop :=
  R.Items line n fun ss => ss.map .stmt

theorem identifier {n : Nat} : R.Items identifier n fun _ => [] := by
  intro c hc _
  refine Gives.expect_bind hc.read rfl fun h => Gives.pure ?_
  exact h.less (Nat.le_refl _) (Nat.zero_le _) (.refl _)

theorem dottedName {n : Nat} : R.Items dottedName n fun _ => [] := by
  intro c hc _
  have hround : R.Rounds (do
      if ← eat .dot then return some (← expect .identifier).value else return none)
      (c.room + 1) (fun _ : String => []) fun _ => 0 := by
    intro c hc _
    refine Gives.eat_or hc.read rfl (fun h => ?_) (Gives.pure hc.read)
    refine Gives.expect_bind h rfl fun h => Gives.pure ?_
    exact h.less (by omega) (Nat.zero_le _) (.refl _)
  refine Gives.expect_bind hc.read rfl fun h => ?_
  have hroom := h.room_le
  refine Gives.after h (hround.collect h.starts (by omega)) fun more d h => Gives.pure ?_
  exact h.less (by omega) (Nat.zero_le _) (List.nil_sublist _)

theorem aliasOf {n : Nat} {name : Parser String} (hname : R.Items name n fun _ => []) :
    R.Items (aliasOf name) n fun _ => [] := by
  intro c hc hn
  refine Gives.after hc.read (hname c hc hn) fun name d h => ?_
  refine Gives.eat_or h rfl (fun h => ?_) (Gives.pure h)
  refine Gives.expect_bind h rfl fun h => Gives.pure ?_
  exact h.less (by omega) (Nat.zero_le _) (.refl _)

theorem importLevel {c : Cursor} (hc : R.Starts c) :
    R.Gives importLevel c fun _ d => R.Read c d 0 0 [] := by
  unfold Grammar.importLevel
  refine Gives.bind (Rounds.collect (?_ : R.Rounds _ (c.room + 1) (fun _ => []) fun _ => 0) hc
    (Nat.lt_succ_self _)) fun dots d h => Gives.pure ?_
  · intro c hc _
    refine Gives.kind_bind ?_
    split
    · rename_i hk
      exact Gives.advance_bind (Gives.pure (hc.read.skip hk nofun))
    · rename_i hk
      exact Gives.advance_bind (Gives.pure (hc.read.skip hk nofun))
    · exact Gives.pure hc.read
  · exact h.less (Nat.zero_le _) (Nat.zero_le _) (List.nil_sublist _)

theorem importedNames {c : Cursor} (hc : R.Starts c) :
    R.Gives importedNames c fun _ d => R.Read c d 0 0 [] := by
  have hitems {c : Cursor} (hc : R.Starts c) {done : Parser Bool} (hdone : Looks done) :
      R.Gives (commaList done (Grammar.aliasOf Grammar.identifier)) c fun _ d =>
        R.Read c d 0 0 [] := by
    have hitem := aliasOf (R := R) (n := c.room + 1) identifier
    refine (hitem.commaList hdone hc (Nat.lt_succ_self _)).imp fun names d h => ?_
    exact h.less (Nat.le_refl _) (Nat.le_refl _) (List.nil_sublist _)
  refine Gives.eat_or hc.read rfl (fun h => Gives.pure ?_) ?_
  · exact h.less (Nat.zero_le _) (Nat.zero_le _) (.refl _)
  refine Gives.eat_or hc.read rfl (fun h => ?_) (hitems hc looks_false)
  refine Gives.after h (hitems h.starts (looks_at _)) fun names d h => ?_
  refine Gives.expect_bind h rfl fun h => Gives.pure ?_
  exact h.less (Nat.zero_le _) (Nat.zero_le _) (.refl _)

theorem parts_of_simple {form : StmtForm Stmt} (hextras : form.extras = [])
    (hblocks : form.blocks = []) (hbody : form.definitionBody = []) :
    form.parts = form.expressions.map .expr := by
  rw [StmtForm.parts, hextras, hblocks, hbody]
  simp

theorem looks_atStmtEnd : Looks atStmtEnd := by
  refine Looks.kind_bind fun c => ?_
  split <;> exact ⟨_, rfl⟩

namespace Subs

variable {n : Nat} {sub : Sub} (hs : R.Subs n sub) {c : Cursor}
include hs

theorem assigned (hc : R.Starts c) (hn : c.room < n) :
    R.Gives (assigned sub) c fun e d => R.Read c d 1 0 [.expr e] :=
  Gives.ite_at (fun _ => hs _ c hc hn) fun _ => hs.exprList hc hn

theorem assignedChain {k : Nat} (hc : R.Starts c) (hn : c.room ≤ n) (hk : c.room < k)
    (hkind : c.kind = .assignment) :
    R.Gives (assignedChain sub k) c fun es d => es ≠ [] ∧ R.Read c d 1 0 (es.map .expr) := by
  induction k generalizing c with
  | zero => omega
  | succ k ih =>
    refine Gives.pass_bind hc.read (by rw [hkind]; rfl) fun h => ?_
    refine Gives.after h (hs.assigned h.starts (h.room_lt hn)) fun value d h => ?_
    refine Gives.ite_at (fun hmore => ?_) fun _ => Gives.pure ⟨nofun, ?_⟩
    · have hroom := h.room
      refine Gives.bind (ih h.starts (by omega) (by omega) hmore) fun es e ⟨_, he⟩ => ?_
      refine Gives.pure ⟨nofun, ?_⟩
      exact (h.trans he).less (by omega) (Nat.zero_le _) (.refl _)
    · exact h.less (by omega) (Nat.zero_le _) (.refl _)

theorem expressionStmt (hc : R.Starts c) (hn : c.room < n) :
    R.Gives (expressionStmt sub) c fun s d => R.Read c d 1 0 [.stmt s] := by
  have ho := Nat.le_of_lt hn
  refine Gives.start_bind ?_
  refine Gives.after hc.read (hs.exprList hc hn) fun first d h => Gives.kind_bind ?_
  split
  · rename_i hk
    refine Gives.pass_bind h (by rw [hk]; rfl) fun h => hs.bind ho h fun ascription e h => ?_
    refine Gives.eat_or h rfl (fun h => ?_) ?_
    · refine Gives.after h (hs.assigned h.starts (h.room_lt ho)) fun value e h => ?_
      exact Gives.stmtFrom h (by omega) (Nat.zero_le _) (.refl _)
    · exact Gives.pure_bind (Gives.stmtFrom h (by omega) (Nat.zero_le _) (.refl _))
  · rename_i hk
    refine Gives.get_bind ?_
    have hchain := hs.assignedChain (k := d.budget) h.starts (Nat.le_trans h.room_le ho)
      (by unfold Cursor.budget Cursor.room; omega) hk
    refine Gives.bind hchain fun values e ⟨hne, he⟩ => ?_
    refine Gives.pure_bind (Gives.stmtFrom (h.trans he) (by omega) (Nat.zero_le _) ?_)
    have hvalues : values.dropLast ++ [values.getLastD first] = values := by
      rw [List.getLastD_eq_getLast?, List.getLast?_eq_some_getLast hne, Option.getD_some]
      exact List.dropLast_concat_getLast hne
    rw [parts_of_simple rfl rfl rfl, StmtForm.expressions, List.cons_append, hvalues]
    exact .refl _
  · rename_i hk
    refine Gives.pass_bind h (by rw [hk]; rfl) fun h => ?_
    refine Gives.after h (hs.assigned h.starts (h.room_lt ho)) fun value e h => ?_
    exact Gives.stmtFrom h (by omega) (Nat.zero_le _) (.refl _)
  · exact Gives.pure_bind (Gives.stmtFrom h (by omega) (Nat.zero_le _) (.refl _))

section Keywords

variable (hc : R.Starts c) (hn : c.room < n) (hk : c.kind.pays = true)
include hc hn hk

theorem returnStmt : R.Gives (returnStmt sub) c fun s d => R.Read c d 1 0 [.stmt s] := by
  refine Gives.pass_bind hc.read hk fun h => looks_atStmtEnd.bind fun found => ?_
  cases found with
  | true => exact Gives.pure_bind (Gives.stmtFrom h (Nat.le_refl _) (Nat.zero_le _) (.refl _))
  | false =>
    refine Gives.after h (hs.exprList h.starts (h.room_lt (Nat.le_of_lt hn))) fun e d h => ?_
    exact Gives.stmtFrom h (by omega) (Nat.zero_le _) (.refl _)

theorem deleteStmt : R.Gives (deleteStmt sub) c fun s d => R.Read c d 1 0 [.stmt s] := by
  refine Gives.pass_bind hc.read hk fun h => ?_
  refine Gives.after h (hs.exprList h.starts (h.room_lt (Nat.le_of_lt hn))) fun e d h => ?_
  simp only
  split
  · rename_i elts hform
    have hinner := Unwraps.unwrapped e []
    rw [Expr.children, hform, List.append_nil] at hinner
    refine Gives.get_bind (Gives.mkStmt h (by omega) (Nat.zero_le _) hinner ?_)
    rw [parts_of_simple rfl rfl rfl]
    exact .refl _
  · exact Gives.stmtFrom h (by omega) (Nat.zero_le _) (.refl _)

theorem assertStmt : R.Gives (assertStmt sub) c fun s d => R.Read c d 1 0 [.stmt s] := by
  have ho := Nat.le_of_lt hn
  refine Gives.pass_bind hc.read hk fun h => hs.bind ho h fun test d h => ?_
  refine Gives.eat_or h rfl (fun h => ?_) ?_
  · refine hs.bind ho h fun msg e h => ?_
    exact Gives.pure_bind (Gives.stmtFrom h (by omega) (Nat.zero_le _) (.refl _))
  · exact Gives.pure_bind (Gives.stmtFrom h (by omega) (Nat.zero_le _) (.refl _))

theorem raiseStmt : R.Gives (raiseStmt sub) c fun s d => R.Read c d 1 0 [.stmt s] := by
  have ho := Nat.le_of_lt hn
  refine Gives.pass_bind hc.read hk fun h => looks_atStmtEnd.bind fun found => ?_
  cases found with
  | true => exact Gives.stmtFrom h (Nat.le_refl _) (Nat.zero_le _) (.refl _)
  | false =>
    refine hs.bind ho h fun exc d h => Gives.eat_or h rfl (fun h => ?_) ?_
    · refine hs.bind ho h fun cause e h => ?_
      exact Gives.pure_bind (Gives.stmtFrom h (by omega) (Nat.zero_le _) (.refl _))
    · exact Gives.pure_bind (Gives.stmtFrom h (by omega) (Nat.zero_le _) (.refl _))

omit hs hn in
theorem wordStmt {form : StmtForm Stmt} (hform : form.parts = []) :
    R.Gives (wordStmt form) c fun s d => R.Read c d 1 0 [.stmt s] := by
  refine Gives.pass_bind hc.read hk fun h => ?_
  exact Gives.mkStmt h (Nat.le_refl _) (Nat.zero_le _) (.kept _) (by rw [hform])

omit hs hn in
theorem importStmt : R.Gives importStmt c fun s d => R.Read c d 1 0 [.stmt s] := by
  refine Gives.pass_bind hc.read hk fun h => ?_
  have hitem := aliasOf (R := R) (n := c.next.room + 1) dottedName
  have hitems := hitem.commaList looks_false h.starts (Nat.lt_succ_self _)
  refine Gives.after h hitems fun names d h => ?_
  exact Gives.stmtFrom h (by omega) (Nat.zero_le _) List.nil_subperm

omit hs hn in
theorem scopeStmt {form : List String → StmtForm Stmt} (hform : ∀ names, (form names).parts = []) :
    R.Gives (scopeStmt form) c fun s d => R.Read c d 1 0 [.stmt s] := by
  refine Gives.pass_bind hc.read hk fun h => ?_
  have hitem := identifier (R := R) (n := c.next.room + 1)
  have hitems := hitem.commaList looks_false h.starts (Nat.lt_succ_self _)
  refine Gives.after h hitems fun names d h => ?_
  refine Gives.stmtFrom h (by omega) (Nat.zero_le _) ?_
  rw [hform]
  exact List.nil_subperm

omit hs hn in
theorem importFromStmt : R.Gives importFromStmt c fun s d => R.Read c d 1 0 [.stmt s] := by
  refine Gives.pass_bind hc.read hk fun h => ?_
  refine Gives.after h (importLevel h.starts) fun level d h => ?_
  have rest {module : String} {d : Cursor} {m : Nat} (h : R.Read c d (m + 1) 0 []) :
      R.Gives (do
        let _ ← expect .kwImport
        let names ← Grammar.importedNames
        stmtFrom c.current.span.start (.importFrom module names level)) d
        fun s d => R.Read c d 1 0 [.stmt s] := by
    refine Gives.expect_bind h rfl fun h => ?_
    refine Gives.after h (importedNames h.starts) fun names e h => ?_
    exact Gives.stmtFrom h (by omega) (Nat.zero_le _) (.refl _)
  refine Gives.ite_at (fun _ => ?_) fun _ => ?_
  · refine Gives.after h (dottedName d h.starts (Nat.lt_succ_self _)) fun module e h => ?_
    exact rest (m := 1) (h.less (by omega) (Nat.zero_le _) (.refl _))
  · exact Gives.pure_bind (rest (m := 0) (h.less (by omega) (Nat.zero_le _) (.refl _)))

end Keywords

theorem simpleStmt (hc : R.Starts c) (hn : c.room < n) :
    R.Gives (simpleStmt sub) c fun s d => R.Read c d 1 0 [.stmt s] := by
  refine Gives.kind_bind ?_
  split
  case h_1 hk => exact hs.returnStmt hc hn (by rw [hk]; rfl)
  case h_2 hk => exact wordStmt hc (by rw [hk]; rfl) rfl
  case h_3 hk => exact wordStmt hc (by rw [hk]; rfl) rfl
  case h_4 hk => exact wordStmt hc (by rw [hk]; rfl) rfl
  case h_5 hk => exact importStmt hc (by rw [hk]; rfl)
  case h_6 hk => exact importFromStmt hc (by rw [hk]; rfl)
  case h_7 hk => exact scopeStmt hc (by rw [hk]; rfl) fun _ => rfl
  case h_8 hk => exact scopeStmt hc (by rw [hk]; rfl) fun _ => rfl
  case h_9 hk => exact hs.deleteStmt hc hn (by rw [hk]; rfl)
  case h_10 hk => exact hs.assertStmt hc hn (by rw [hk]; rfl)
  case h_11 hk => exact hs.raiseStmt hc hn (by rw [hk]; rfl)
  case h_12 => exact hs.expressionStmt hc hn

theorem simpleLine : R.Lines n (simpleLine sub) := by
  intro c hc hn
  refine Gives.after hc.read (hs.simpleStmt hc hn) fun first d h => ?_
  have hlt := Nat.lt_of_le_of_lt h.room_le hn
  refine Gives.after h (Rounds.collect (?_ : R.Rounds _ n (fun s => [.stmt s]) fun _ => 0)
    h.starts hlt) fun more e h => ?_
  · intro c hc hn
    refine Gives.eat_or hc.read rfl (fun h => Gives.kind_bind ?_) (Gives.pure hc.read)
    have hnone := h.less (Nat.zero_le _) (Nat.zero_le _) (.refl _)
    split
    · exact Gives.pure hnone
    · exact Gives.pure hnone
    · refine Gives.after h (hs.simpleStmt h.starts (h.room_lt (Nat.le_of_lt hn))) fun s d h => ?_
      exact Gives.pure (h.less (by omega) (Nat.zero_le _) (.refl _))
  have hstmts {e : Cursor} {m k : Nat}
      (h : R.Read c e (m + 1) k ([] ++ [.stmt first] ++ more.flatMap fun s => [.stmt s])) :
      R.Read c e 1 0 ((first :: more).map .stmt) := by
    refine h.less (by omega) (Nat.zero_le _) ?_
    have hflat : more.flatMap (fun s => [Node.stmt s]) = more.map .stmt :=
      List.flatMap_pure_eq_map _ _
    rw [hflat]
    exact .refl _
  refine Gives.eat_bind (fun hk => ?_) fun _ => ?_
  · exact Gives.pure (hstmts (m := 1) ((h.skip hk nofun).less (by omega) (Nat.le_refl _) (.refl _)))
  · refine Gives.ite_at (fun _ => Gives.pure ?_) fun _ => Gives.unexpected h.starts.inv
    exact hstmts (m := 0) (h.less (by omega) (Nat.le_refl _) (.refl _))

end Subs

def handlerNodes (handler : Handler Stmt) : List Node :=
  handler.type.toList.map .expr ++ handler.body.map .stmt

theorem perm_handlerNodes (handlers : List (Handler Stmt)) :
    ((handlers.filterMap (·.type)).map Node.expr ++
      (handlers.map (·.body)).flatten.map Node.stmt).Perm (handlers.flatMap handlerNodes) := by
  classical
  induction handlers with
  | nil => exact .refl _
  | cons handler handlers ih =>
    rw [List.perm_iff_count] at ih ⊢
    intro node
    have ih := ih node
    cases htype : handler.type with
    | none =>
      simp only [List.filterMap_cons, htype, List.flatMap_cons, handlerNodes, List.map_cons,
        List.flatten_cons, List.map_append, List.count_append, Option.toList_none, List.map_nil,
        List.count_nil] at ih ⊢
      omega
    | some type =>
      simp only [List.filterMap_cons, htype, List.flatMap_cons, handlerNodes, List.map_cons,
        List.flatten_cons, List.map_append, List.count_append, Option.toList_some, List.map_nil,
        List.count_cons, List.count_nil] at ih ⊢
      omega

namespace Lines

variable {n : Nat} {sub : Sub} {line : Parser (List Stmt)} (hl : R.Lines n line)
  (hs : R.Subs (n + 1) sub) {c o : Cursor} {m k : Nat} {ns : List Node} (ho : o.room ≤ n)
include hl hs ho

theorem block (h : R.Read o c m k ns) :
    R.Gives (block sub line) c fun ss d => R.Read o d (m + 1) 0 (ns ++ ss.map .stmt) := by
  refine Gives.expect_bind h rfl fun h => Gives.eat_bind (fun hk => ?_) fun _ => ?_
  · have h := h.skip hk nofun
    refine Gives.expectOr_bind h.starts.inv fun hk => ?_
    have h := h.skip hk nofun
    refine Gives.after h (Rounds.collect (?_ : R.Rounds _ n (fun ss => ss.map .stmt) fun _ => 0)
      h.starts (h.room_lt ho)) fun lines d h => ?_
    · intro c hc hn
      refine Gives.kind_bind ?_
      split
      · exact Gives.pure hc.read
      · exact Gives.pure hc.read
      · exact Gives.bind (hl c hc hn) fun ss d h => Gives.pure h
    have hlines {d : Cursor} {j l : Nat}
        (h : R.Read o d (m + 1 + j) l (ns ++ lines.flatMap fun ss => ss.map .stmt)) :
        R.Read o d (m + 1) 0 (ns ++ lines.flatten.map .stmt) := by
      refine h.less (by omega) (Nat.zero_le _) ?_
      rw [List.map_flatten, List.flatMap_def]
    refine Gives.eat_bind (fun hk => Gives.pure ?_) fun _ => Gives.pure ?_
    · exact hlines (j := 2) ((h.skip hk nofun).less (by omega) (Nat.le_refl _) (.refl _))
    · exact hlines (j := 2) (h.less (by omega) (Nat.le_refl _) (.refl _))
  · have hlt := Nat.lt_succ_of_lt (h.room_lt ho)
    refine (hs.simpleLine _ h.starts hlt).imp fun ss d hd => ?_
    exact (h.trans hd).less (by omega) (Nat.zero_le _) (.refl _)

theorem elseBlock (h : R.Read o c m k ns) :
    R.Gives (elseBlock sub line) c fun ss d => R.Read o d m 0 (ns ++ ss.map .stmt) := by
  refine Gives.eat_or h rfl (fun h => ?_) (Gives.pure ?_)
  · refine (block hl hs ho h).imp fun ss d h => ?_
    exact h.less (by omega) (Nat.le_refl _) (.refl _)
  · exact h.less (Nat.le_refl _) (Nat.zero_le _) (by simp)

omit ho in
theorem ifStmt {j : Nat} (hc : R.Starts c) (hn : c.room ≤ n) (hk : c.kind.pays = true)
    (hj : c.room < j) : R.Gives (ifStmt sub line j) c fun s d => R.Read c d 1 0 [.stmt s] := by
  induction j generalizing c with
  | zero => omega
  | succ j ih =>
    refine Gives.pass_bind hc.read hk fun h => ?_
    refine hs.bind (Nat.le_succ_of_le hn) h fun test d h => ?_
    refine Gives.bind (block hl hs hn h) fun body e h => ?_
    have hstmt {orelse : List Stmt} {f : Cursor}
        (h : R.Read c f 1 0 ([] ++ [.expr test] ++ body.map .stmt ++ orelse.map .stmt)) :
        R.Gives (stmtFrom c.current.span.start (.ifElse test body orelse)) f fun s d =>
          R.Read c d 1 0 [.stmt s] := by
      refine Gives.stmtFrom h (by omega) (Nat.zero_le _) ?_
      simp [StmtForm.parts, StmtForm.expressions, StmtForm.extras, StmtForm.blocks,
        StmtForm.definitionBody, List.Subperm.refl]
    refine Gives.ite_at (fun hk => ?_) fun _ => ?_
    · have hroom := h.room
      refine Gives.after h (ih h.starts (by omega) (by rw [hk]; rfl) (by omega)) fun s f h => ?_
      exact Gives.pure_bind (hstmt (h.less (by omega) (Nat.zero_le _) (.refl _)))
    · refine Gives.bind (elseBlock hl hs hn h) fun orelse f h => ?_
      exact hstmt (h.less (by omega) (Nat.zero_le _) (.refl _))

theorem whileStmt (h : R.Read o c m k []) (hk : c.kind.pays = true) :
    R.Gives (whileStmt sub line) c fun s d => R.Read o d (m + 1) 0 [.stmt s] := by
  refine Gives.pass_bind h hk fun h => hs.bind (Nat.le_succ_of_le ho) h fun test d h => ?_
  refine Gives.bind (block hl hs ho h) fun body e h => ?_
  refine Gives.bind (elseBlock hl hs ho h) fun orelse f h => ?_
  refine Gives.stmtFrom h (by omega) (Nat.zero_le _) ?_
  simp [StmtForm.parts, StmtForm.expressions, StmtForm.extras, StmtForm.blocks,
    StmtForm.definitionBody, List.Subperm.refl]

theorem forStmt (isAsync : Bool) (h : R.Read o c m k []) :
    R.Gives (forStmt sub line isAsync) c fun s d => R.Read o d (m + 1) 0 [.stmt s] := by
  have hlt {d : Cursor} {j l : Nat} {ns : List Node} (h : R.Read o d (j + 1) l ns) :
      d.room < n + 1 := Nat.lt_succ_of_lt (h.room_lt ho)
  refine Gives.expect_bind h rfl fun h => ?_
  refine Gives.after h (hs.targetList h.starts (hlt h)) fun target d h => ?_
  refine Gives.expect_bind h rfl fun h => ?_
  refine Gives.after h (hs.exprList h.starts (hlt h)) fun iter e h => ?_
  refine Gives.bind (block hl hs ho h) fun body e h => ?_
  refine Gives.bind (elseBlock hl hs ho h) fun orelse f h => ?_
  refine Gives.stmtFrom h (by omega) (Nat.zero_le _) ?_
  simp [StmtForm.parts, StmtForm.expressions, StmtForm.extras, StmtForm.blocks,
    StmtForm.definitionBody, List.Subperm.refl]

omit hl in
theorem handlerHead (h : R.Read o c (m + 1) k ns) :
    R.Gives (handlerHead sub) c fun r d => R.Read o d (m + 1) 0 (ns ++ r.1.toList.map .expr) := by
  refine Gives.ite_at (fun _ => Gives.pure ?_) fun _ => ?_
  · exact h.less (Nat.le_refl _) (Nat.zero_le _) (by simp)
  refine hs.bind (Nat.le_succ_of_le ho) h fun type d h => Gives.eat_or h rfl (fun h => ?_) ?_
  · refine Gives.after h (identifier d.next h.starts (Nat.lt_succ_self _)) fun name e h => ?_
    exact Gives.pure (h.less (by omega) (Nat.zero_le _) (by simp))
  · exact Gives.pure (h.less (by omega) (Nat.zero_le _) (.refl _))

theorem handler (h : R.Read o c m k []) (hk : c.kind.pays = true) :
    R.Gives (handler sub line) c fun handler d => R.Read o d (m + 1) 0 (handlerNodes handler) := by
  refine Gives.pass_bind h hk fun h => ?_
  refine Gives.eat_or h rfl (fun h => ?_) ?_
  all_goals
    have h := h.less (j := m + 1) (by omega) (Nat.le_refl _) (.refl _)
    refine Gives.bind (handlerHead hs ho h) fun r d h => ?_
    refine Gives.bind (block hl hs ho h) fun body d h => Gives.get_bind (Gives.pure ?_)
    exact h.less (by omega) (Nat.le_refl _) (.refl _)

theorem tryStmt (h : R.Read o c m k []) (hk : c.kind.pays = true) :
    R.Gives (tryStmt sub line) c fun s d => R.Read o d (m + 1) 0 [.stmt s] := by
  have hround : R.Rounds (do
      if ← at? .kwExcept then return some (← Grammar.handler sub line) else return none)
      n handlerNodes fun _ => 0 := by
    intro c hc hn
    refine Gives.ite_at (fun hk => ?_) fun _ => Gives.pure hc.read
    have hhandler := handler hl hs (Nat.le_of_lt hn) hc.read (by rw [hk]; rfl)
    exact Gives.bind hhandler fun handler d h => Gives.pure h
  refine Gives.pass_bind h hk fun h => Gives.bind (block hl hs ho h) fun body d h => ?_
  refine Gives.after h (hround.collect h.starts (h.room_lt ho)) fun handlers d h => ?_
  refine Gives.bind (elseBlock hl hs ho h) fun orelse e h => ?_
  have rest {e : Cursor} {final : List Stmt} (h : R.Read o e (m + 1) 0
      ([] ++ body.map .stmt ++ handlers.flatMap handlerNodes ++ orelse.map .stmt ++
        final.map .stmt)) :
      R.Gives (if handlers.isEmpty && final.isEmpty then unexpected "expected `except` or `finally`"
        else stmtFrom c.current.span.start (.tryExcept body handlers orelse final)) e
        fun s d => R.Read o d (m + 1) 0 [.stmt s] := by
    split
    · exact Gives.unexpected h.starts.inv
    · refine Gives.stmtFrom h (Nat.le_refl _) (Nat.zero_le _) ?_
      classical
      rw [List.subperm_ext_iff]
      intro node _
      have hhandlers := List.perm_iff_count.1 (perm_handlerNodes handlers) node
      simp only [StmtForm.parts, StmtForm.expressions, StmtForm.extras, StmtForm.blocks,
        StmtForm.definitionBody, List.append_nil, List.nil_append, List.cons_append,
        List.flatten_cons, List.flatten_append, List.flatten_nil, List.map_append,
        List.count_append] at hhandlers ⊢
      omega
  refine Gives.eat_or h rfl (fun h => ?_) ?_
  · refine Gives.bind (block hl hs ho h) fun final f h => ?_
    exact rest (h.less (by omega) (Nat.zero_le _) (.refl _))
  · refine Gives.pure_bind (rest (h.less (by omega) (Nat.zero_le _) ?_))
    simp

theorem withStmt (isAsync : Bool) (h : R.Read o c m k []) :
    R.Gives (withStmt sub line isAsync) c fun s d => R.Read o d (m + 1) 0 [.stmt s] := by
  have hitem : R.Items (withItem sub) (n + 1)
      fun item => (item.context :: item.vars.toList).map .expr := by
    intro c hc hn
    refine Gives.after hc.read (hs .lowest c hc hn) fun context d h => ?_
    refine Gives.eat_or h rfl (fun h => ?_) (Gives.pure h)
    refine hs.bind (Nat.le_of_lt hn) h fun vars e h => Gives.pure ?_
    exact h.less (by omega) (Nat.zero_le _) (.refl _)
  refine Gives.expect_bind h rfl fun h => ?_
  have hlt := Nat.lt_succ_of_lt (h.room_lt ho)
  refine Gives.after h (hitem.commaList looks_false h.starts hlt) fun items d h => ?_
  refine Gives.bind (block hl hs ho h) fun body e h => ?_
  refine Gives.stmtFrom h (by omega) (Nat.zero_le _) ?_
  simp [StmtForm.parts, StmtForm.expressions, StmtForm.extras, StmtForm.blocks,
    StmtForm.definitionBody, List.map_flatMap, List.Subperm.refl]

theorem functionStmt (decorators : List Expr) (isAsync : Bool)
    (h : R.Read o c m k (decorators.map .expr)) :
    R.Gives (functionStmt sub line decorators isAsync) c fun s d =>
      R.Read o d (m + 1) 0 [.stmt s] := by
  refine Gives.expect_bind h rfl fun h => ?_
  refine Gives.after h (identifier c.next h.starts (Nat.lt_succ_self _)) fun name d h => ?_
  refine Gives.expect_bind h rfl fun h => ?_
  have hlt := Nat.lt_succ_of_lt (h.room_lt ho)
  refine Gives.bind (hs.parameters _ _ h.starts hlt) fun params e ⟨ns, hparams, hns⟩ => ?_
  refine Gives.expect_bind (h.trans hparams) rfl fun h => ?_
  have rest {returns : Option Expr} {f : Cursor} {k : Nat} (h : R.Read o f (m + 1) k
      (decorators.map .expr ++ [] ++ ns ++ returns.toList.map .expr)) :
      R.Gives (do
        let body ← Grammar.block sub line
        let span := (← get).spanFrom c.current.span.start
        mkStmt (.functionDef ⟨name, params, body, returns, decorators, isAsync, span⟩) span) f
        fun s d => R.Read o d (m + 1) 0 [.stmt s] := by
    refine Gives.bind (block hl hs ho h) fun body g h => Gives.get_bind ?_
    refine Gives.mkStmt h (by omega) (Nat.zero_le _) (.kept _) ?_
    classical
    rw [List.subperm_ext_iff]
    intro node _
    have hcount := hns.count_le node
    simp only [StmtForm.parts, StmtForm.expressions, StmtForm.extras, StmtForm.blocks,
      StmtForm.definitionBody, paramExprs, List.flatten_nil, List.append_nil, List.nil_append,
      List.map_append, List.count_append] at hcount ⊢
    omega
  refine Gives.eat_or h rfl (fun h => ?_) ?_
  · refine hs.bind (Nat.le_succ_of_le ho) h fun returns f h => ?_
    exact Gives.pure_bind (rest (h.less (by omega) (Nat.le_refl _) (.refl _)))
  · refine Gives.pure_bind (rest (h.less (by omega) (Nat.le_refl _) ?_))
    simp

theorem classStmt (decorators : List Expr) (h : R.Read o c m k (decorators.map .expr)) :
    R.Gives (classStmt sub line decorators) c fun s d => R.Read o d (m + 1) 0 [.stmt s] := by
  refine Gives.expect_bind h rfl fun h => ?_
  refine Gives.after h (identifier c.next h.starts (Nat.lt_succ_self _)) fun name d h => ?_
  have rest {bases : List Expr} {keywords : List (Keyword Expr)} {f : Cursor} {k : Nat}
      {ns : List Node} (h : R.Read o f (m + 1) k (decorators.map .expr ++ [] ++ ns))
      (hns : ((bases ++ keywords.map (·.value)).map Node.expr).Subperm ns) :
      R.Gives (do
        let body ← Grammar.block sub line
        let span := (← get).spanFrom c.current.span.start
        mkStmt (.classDef ⟨name, bases, keywords, body, decorators, span⟩) span) f
        fun s d => R.Read o d (m + 1) 0 [.stmt s] := by
    refine Gives.bind (block hl hs ho h) fun body g h => Gives.get_bind ?_
    refine Gives.mkStmt h (by omega) (Nat.zero_le _) (.kept _) ?_
    have hparts (span : Span) :
        (StmtForm.classDef ⟨name, bases, keywords, body, decorators, span⟩).parts =
          decorators.map .expr ++ (bases ++ keywords.map (·.value)).map .expr ++
            body.map .stmt := by
      simp [StmtForm.parts, StmtForm.expressions, StmtForm.extras, StmtForm.blocks,
        StmtForm.definitionBody]
    rw [hparts, List.append_nil]
    exact (List.subperm_append_right _).2 ((List.subperm_append_left _).2 hns)
  refine Gives.eat_or h rfl (fun h => ?_) ?_
  · refine Gives.bind (hs.arguments (Nat.le_succ_of_le ho) h) fun r f h => ?_
    obtain ⟨ns, h, hns⟩ := h
    exact rest (h.less (by omega) (Nat.le_refl _) (.refl _)) hns
  · refine Gives.pure_bind (rest (h.less (by omega) (Nat.le_refl _) ?_) (.refl _))
    simp

theorem decoratedStmt (h : R.Read o c m k []) :
    R.Gives (decoratedStmt sub line) c fun s d => R.Read o d (m + 1) 0 [.stmt s] := by
  have hround : R.Rounds (do
      if ← eat .atSign then
        let decorator ← sub .lowest
        let _ ← expect .newline
        return some decorator
      else
        return none) (n + 1) (fun e => [.expr e]) fun _ => 0 := by
    intro c hc hn
    refine Gives.eat_or hc.read rfl (fun h => ?_) (Gives.pure hc.read)
    refine hs.bind (Nat.le_of_lt hn) h fun decorator d h => ?_
    refine Gives.expectOr_bind h.starts.inv fun hk => Gives.pure ?_
    exact (h.skip hk nofun).less (by omega) (Nat.zero_le _) (.refl _)
  have hlt : c.room < n + 1 := Nat.lt_succ_of_le (Nat.le_trans h.room_le ho)
  refine Gives.after h (hround.collect h.starts hlt) fun decorators d h => Gives.kind_bind ?_
  rw [List.nil_append, flatMap_expr] at h
  split
  · refine (functionStmt hl hs ho decorators false h).imp fun s e h => ?_
    exact h.less (by omega) (Nat.le_refl _) (.refl _)
  · rename_i hk
    refine Gives.advance_bind ?_
    refine (functionStmt hl hs ho decorators true (h.skip hk nofun)).imp fun s e h => ?_
    exact h.less (by omega) (Nat.le_refl _) (.refl _)
  · refine (classStmt hl hs ho decorators h).imp fun s e h => ?_
    exact h.less (by omega) (Nat.le_refl _) (.refl _)
  · exact Gives.unexpected h.starts.inv

theorem asyncStmt (h : R.Read o c m k []) (hk : c.kind.pays = true) :
    R.Gives (asyncStmt sub line) c fun s d => R.Read o d (m + 2) 0 [.stmt s] := by
  refine Gives.pass_bind h hk fun h => Gives.kind_bind ?_
  split
  · exact functionStmt hl hs ho [] true h
  · exact forStmt hl hs ho true h
  · exact withStmt hl hs ho true h
  · exact Gives.unexpected h.starts.inv

omit ho in
theorem lineOver : R.Lines (n + 1) (lineOver sub line) := by
  intro c hc hn
  have ho : c.room ≤ n := Nat.le_of_lt_succ hn
  have one {p : Parser Stmt} {j : Nat}
      (h : R.Gives p c fun s d => R.Read c d (j + 1) 0 [.stmt s]) :
      R.Gives (p >>= fun s => pure [s]) c fun ss d => R.Read c d 1 0 (ss.map .stmt) :=
    Gives.bind h fun s d h => Gives.pure (h.less (by omega) (Nat.le_refl _) (.refl _))
  refine Gives.kind_bind ?_
  split
  case h_1 hk =>
    refine Gives.get_bind (one (j := 0) (ifStmt hl hs hc ho (by rw [hk]; rfl) ?_))
    unfold Cursor.budget Cursor.room
    omega
  case h_2 hk => exact one (whileStmt hl hs ho hc.read (by rw [hk]; rfl))
  case h_3 => exact one (forStmt hl hs ho false hc.read)
  case h_4 hk => exact one (tryStmt hl hs ho hc.read (by rw [hk]; rfl))
  case h_5 => exact one (withStmt hl hs ho false hc.read)
  case h_6 => exact one (functionStmt hl hs ho [] false hc.read)
  case h_7 => exact one (classStmt hl hs ho [] hc.read)
  case h_8 => exact one (decoratedStmt hl hs ho hc.read)
  case h_9 hk => exact one (asyncStmt hl hs ho hc.read (by rw [hk]; rfl))
  case h_10 => exact hs.simpleLine c hc hn

end Lines

theorem Items.mono {p : Parser α} {n k : Nat} {nodes : α → List Node} (h : R.Items p n nodes)
    (hk : k ≤ n) : R.Items p k nodes :=
  fun c hc hn => h c hc (Nat.lt_of_lt_of_le hn hk)

theorem lines_line {sub : Sub} {n k : Nat} (hs : R.Subs n sub) (hk : k ≤ n) :
    R.Lines k (line sub k) := by
  induction k with
  | zero => exact fun c _ hn => absurd hn (Nat.not_lt_zero _)
  | succ k ih => exact (ih (Nat.le_of_succ_le hk)).lineOver fun p => (hs p).mono hk

theorem moduleBody {c : Cursor} (hc : R.Starts c) :
    R.Gives moduleBody c fun ss d => R.Read c d 0 0 (ss.map .stmt) := by
  have hlines := lines_line (subs_expression (R := R) c.budget) (Nat.le_refl _)
  have hround : R.Rounds (do
      let d ← get
      if d.later.isEmpty || d.kind == .eof then return none
      else if ← eat .newline then return some []
      else return some (← line (expression c.budget) c.budget))
      c.budget (fun ss => ss.map .stmt) fun _ => 0 := by
    intro d hd hn
    refine Gives.get_bind ?_
    simp only
    split
    · exact Gives.pure hd.read
    · refine Gives.eat_bind (fun hk => Gives.pure (hd.read.skip hk nofun)) fun _ => ?_
      exact Gives.bind (hlines d hd hn) fun ss e h => Gives.pure h
  refine Gives.get_bind ?_
  have hlt : c.room < c.budget := by unfold Cursor.budget Cursor.room; omega
  refine Gives.bind (hround.collect hc hlt) fun lines d h => Gives.pure ?_
  refine h.less (Nat.zero_le _) (Nat.zero_le _) ?_
  rw [List.map_flatten, List.flatMap_def]

end Reading

theorem Cursor.ended_ofTokens (tokens : List Token) (file : String) :
    (Cursor.ofTokens tokens file).Ended := by
  unfold Cursor.ofTokens
  simp only
  split
  · rename_i t ts last hlast
    split
    · rename_i hk
      exact ⟨last, hlast, eq_of_beq hk⟩
    · refine ⟨⟨.eof, "EOF", ⟨last.span.stop, last.span.stop⟩⟩, ?_, rfl⟩
      rw [← List.cons_append, List.getLast?_append]
      rfl
  · exact ⟨⟨.eof, "EOF", ⟨⟨0, 1, 0, file⟩, ⟨0, 1, 0, file⟩⟩⟩, rfl, rfl⟩

/-- What a list of tokens is read as: the statements of a module, or a fault, but the fuel is always
enough. -/
theorem Reading.parse (R : Reading) (tokens : List Token) (file : String)
    (hinv : R.inv (Cursor.ofTokens tokens file)) :
    match Grammar.parse tokens file with
    | .ok m => ∃ d, Grammar.moduleBody.run (Cursor.ofTokens tokens file) = .ok (m.body, d) ∧
        R.reads (Cursor.ofTokens tokens file) d 0 (m.body.map .stmt)
    | .error (.fault f) => R.fault f
    | .error .exhausted => False := by
  have h := moduleBody (R := R) ⟨hinv, Cursor.ended_ofTokens tokens file⟩
  unfold Gives at h
  unfold Grammar.parse
  cases hrun : Grammar.moduleBody.run (Cursor.ofTokens tokens file) with
  | ok result =>
    rw [hrun] at h
    exact ⟨result.2, rfl, h.nodes⟩
  | error e =>
    rw [hrun] at h
    cases e with
    | fault f => exact h
    | exhausted => exact h

end Credence.Grammar

import Credence.Proofs.ReadingStmt

namespace Credence

def identities (ns : List Node) : List Nat :=
  (ns.flatMap Node.nodes).map Node.id

theorem identities_append (ns ms : List Node) :
    identities (ns ++ ms) = identities ns ++ identities ms := by
  rw [identities, List.flatMap_append, List.map_append]
  rfl

theorem identities_cons (n : Node) (ns : List Node) :
    identities (n :: ns) = n.id :: identities n.parts ++ identities ns := by
  rw [identities, List.flatMap_cons, List.map_append, Node.nodes_eq]
  rfl

theorem identities_subperm {ms ns : List Node} (h : ms.Subperm ns) :
    (identities ms).Subperm (identities ns) := by
  obtain ⟨zs, hperm, hsub⟩ := h
  exact ⟨identities zs, (hperm.flatMap_right Node.nodes).map Node.id,
    (hsub.flatMap Node.nodes).map Node.id⟩

namespace Grammar

/-- The nodes of the trees that are read between two places take numbers from the one counter up to
the other, each at most once. -/
structure Cursor.Numbers (c d : Cursor) (ns : List Node) : Prop where
  le : c.nextId ≤ d.nextId
  nodup : (identities ns).Nodup
  between : ∀ i ∈ identities ns, c.nextId ≤ i ∧ i < d.nextId

theorem Cursor.nextId_ofTokens (tokens : List Token) (file : String) :
    (Cursor.ofTokens tokens file).nextId = 1 := by
  unfold Cursor.ofTokens
  simp only
  split
  · split <;> rfl
  · rfl

theorem Cursor.nextId_next (c : Cursor) : c.next.nextId = c.nextId := by
  unfold Cursor.next
  split <;> rfl

namespace Cursor.Numbers

variable {c d e : Cursor} {ns ms : List Node}

theorem refl (c : Cursor) : c.Numbers c [] :=
  ⟨Nat.le_refl _, List.nodup_nil, nofun⟩

theorem pass (h : c.Numbers d ns) : c.Numbers d.next ns := by
  obtain ⟨le, nodup, between⟩ := h
  rw [← d.nextId_next] at le between
  exact ⟨le, nodup, between⟩

theorem trans (h : c.Numbers d ns) (h' : d.Numbers e ms) : c.Numbers e (ns ++ ms) := by
  have hle := h.le
  have hle' := h'.le
  refine ⟨Nat.le_trans hle hle', ?_, fun i hi => ?_⟩
  · rw [identities_append]
    refine List.nodup_append.2 ⟨h.nodup, h'.nodup, fun i hi j hj heq => ?_⟩
    have := h.between i hi
    have := h'.between j hj
    omega
  · rw [identities_append] at hi
    rcases List.mem_append.1 hi with hi | hi
    · have := h.between i hi
      omega
    · have := h'.between i hi
      omega

theorem of_subperm (h : c.Numbers d ns) (hids : (identities ms).Subperm (identities ns)) :
    c.Numbers d ms := by
  obtain ⟨ids, hperm, hsub⟩ := hids
  refine ⟨h.le, hperm.nodup_iff.1 (h.nodup.sublist hsub), fun i hi => ?_⟩
  exact h.between i (hsub.subset (hperm.mem_iff.2 hi))

theorem node {n : Node} (h : c.Numbers d ns) (hms : Unwraps ns ms) (hparts : n.parts.Subperm ms)
    (hid : n.id = d.nextId) : c.Numbers { d with nextId := d.nextId + 1 } [n] := by
  have hn := (h.of_subperm (hms.sublist_nodes.map Node.id).subperm).of_subperm (identities_subperm hparts)
  have hids : identities [n] = d.nextId :: identities n.parts := by
    rw [identities_cons, hid]
    exact List.append_nil _
  refine ⟨Nat.le_succ_of_le hn.le, ?_, fun i hi => ?_⟩
  · rw [hids]
    refine List.nodup_cons.2 ⟨fun hmem => ?_, hn.nodup⟩
    exact absurd (hn.between _ hmem).2 (Nat.lt_irrefl _)
  · rw [hids] at hi
    rcases List.mem_cons.1 hi with rfl | hi
    · exact ⟨hn.le, Nat.lt_succ_self _⟩
    · exact (hn.between i hi).imp_right Nat.lt_succ_of_lt

end Cursor.Numbers

def Reading.numbers : Reading where
  inv _ := True
  reads c d _ ns := c.Numbers d ns
  fault _ := True
  inv_of_reads _ := trivial
  refl _ := Cursor.Numbers.refl _
  pass h _ := h.pass
  trans := Cursor.Numbers.trans
  spend h _ hms := h.of_subperm (identities_subperm hms.subperm)
  expr h hms hparts _ := h.node hms hparts rfl
  stmt _ h hms hparts := h.node hms hparts rfl
  fail _ _ := trivial

/-- All nodes of a module, at any depth, have different identities, from one up to the last number that
the parser took. -/
theorem identities_of_parse {tokens : List Token} {file : String} {m : Module}
    (h : parse tokens file = .ok m) :
    ∃ c, moduleBody.run (Cursor.ofTokens tokens file) = .ok (m.body, c) ∧
      ((bodyNodes m.body).map Node.id).Nodup ∧
      ∀ n ∈ bodyNodes m.body, 1 ≤ n.id ∧ n.id ≤ c.nextId - 1 := by
  have hparse := Reading.numbers.parse tokens file trivial
  rw [h] at hparse
  obtain ⟨c, hrun, hnumbers⟩ := hparse
  have hids : identities (m.body.map .stmt) = (bodyNodes m.body).map Node.id := by
    rw [Node.bodyNodes_eq]
    rfl
  refine ⟨c, hrun, hids ▸ hnumbers.nodup, fun n hn => ?_⟩
  have hbetween := hnumbers.between n.id (hids ▸ List.mem_map_of_mem hn)
  rw [Cursor.nextId_ofTokens] at hbetween
  omega

/-- A tuple that is deleted and a chain that is made longer give their numbers up. -/
theorem identities_of_parse_unwrapped :
    ∃ tokens m c, Token.tokenize "del x, y\nz = a or b or c\n" "main.py" = .ok tokens ∧
      parse tokens "main.py" = .ok m ∧
      moduleBody.run (Cursor.ofTokens tokens "main.py") = .ok (m.body, c) ∧ c.nextId = 12 ∧
      ((bodyNodes m.body).map Node.id).Nodup ∧
      ∀ n ∈ bodyNodes m.body, 1 ≤ n.id ∧ n.id ≤ c.nextId - 1 := by
  have hnext : (match Token.tokenize "del x, y\nz = a or b or c\n" "main.py" with
      | .error _ => none
      | .ok tokens =>
        match moduleBody.run (Cursor.ofTokens tokens "main.py") with
        | .error _ => none
        | .ok r => some r.2.nextId) = some 12 := by
    decide +kernel
  cases htokens : Token.tokenize "del x, y\nz = a or b or c\n" "main.py" with
  | error fault =>
    rw [htokens] at hnext
    cases hnext
  | ok tokens =>
    rw [htokens] at hnext
    cases hrun : moduleBody.run (Cursor.ofTokens tokens "main.py") with
    | error stop =>
      simp only [hrun] at hnext
      cases hnext
    | ok r =>
      obtain ⟨body, d⟩ := r
      simp only [hrun] at hnext
      have hparse : parse tokens "main.py" =
          .ok ⟨body, "main.py", ⟨⟨0, 1, 0, "main.py"⟩, d.start⟩⟩ := by
        unfold parse
        rw [hrun]
        rfl
      obtain ⟨c, hc, hids⟩ := identities_of_parse hparse
      rw [hrun] at hc
      cases hc
      exact ⟨tokens, _, d, rfl, hparse, hrun, Option.some.inj hnext, hids⟩

end Grammar

end Credence

import Credence.Proofs.Identical
import Credence.Proofs.ParallelStmt
import Credence.Proofs.Provenance

namespace Credence

open Check CheckM

def FunctionBody.nodes : FunctionBody → List Node
  | .statements definition => bodyNodes definition.body
  | .lambda value => value.nodes.map .expr

/-- What the nodes of a plain body mention is among the names in it. -/
theorem FunctionBody.mem_names_of_mentions {body : FunctionBody} {n : Node} {x : String} (hn : n ∈ body.nodes)
    (hplain : ∀ n ∈ body.nodes, n.isPlain = true) (h : n.Mentions x) : x ∈ body.names := by
  cases body with
  | statements definition => exact ((mem_namesUsed_iff_mentions definition.body).1 x).2 (mentions_of_mem_bodyNodes hn hplain h)
  | lambda value =>
    obtain ⟨k, hk, rfl⟩ := List.mem_map.1 hn
    refine ((adds_namesOnto value []).mem_iff x).2 (.inr ?_)
    exact Expr.mentions_of_mem_nodes hk (fun k hk => hplain _ (List.mem_map_of_mem hk)) h

theorem Pairing.Twin.returned_eq {P : Pairing} {spine : List Nat} {s t : Session} (h : P.Twin spine s t)
    (id id' : FunctionId) (f : FunctionInfo) (value : Option Ty) : s.returned id f value = t.returned id' f value := by
  cases value with
  | some value => rfl
  | none =>
    have hframes := h.frames
    rw [Session.returned, Session.returned]
    generalize s.frames = frames at hframes
    generalize t.frames = frames' at hframes
    cases hframes with
    | head returned yielded => rfl

namespace FunctionInfo

/-- A call of which the result hangs on nothing but its key. The body defines, imports, declares and deletes
nothing, and binds parameters and names that are not visible from outside. Neither the arguments nor what the
body reads from outside have classes, objects, functions or modules in them. -/
structure SelfContained (f : FunctionInfo) (scopes : Scopes) (arguments : List (String × Ty)) : Prop where
  plain : ∀ n ∈ f.body.nodes, n.isPlain = true
  own : ∀ n ∈ f.body.nodes, ∀ x ∈ n.changes, x ∈ arguments.map (·.1) ∨ scopes.lookupFrom f.captured x = none
  arguments : ∀ argument ∈ arguments, argument.2.isClosed = true
  captured : ∀ t? ∈ f.capturedView scopes, ∀ t ∈ t?, t.isClosed = true

instance (f : FunctionInfo) (scopes : Scopes) (arguments : List (String × Ty)) :
    Decidable (f.SelfContained scopes arguments) :=
  decidable_of_iff
    ((∀ n ∈ f.body.nodes, n.isPlain = true) ∧
      (∀ n ∈ f.body.nodes, ∀ x ∈ n.changes, x ∈ arguments.map (·.1) ∨ scopes.lookupFrom f.captured x = none) ∧
      (∀ argument ∈ arguments, argument.2.isClosed = true) ∧
      ∀ t? ∈ f.capturedView scopes, ∀ t ∈ t?, t.isClosed = true)
    ⟨fun ⟨plain, own, arguments, captured⟩ => ⟨plain, own, arguments, captured⟩,
      fun h => ⟨h.plain, h.own, h.arguments, h.captured⟩⟩

variable {f : FunctionInfo} {c : Context} {id : FunctionId} {arguments : List (String × Ty)} {s t : Session}

theorem SelfContained.closedKey {has : Entry → Prop} (h : f.SelfContained t.scopes arguments)
    (hkey : CallKey.Sound has ⟨arguments, f.capturedView t.scopes⟩) :
    CallKey.Sound (fun _ => False) ⟨arguments, f.capturedView t.scopes⟩ where
  arguments argument hargument := (hkey.arguments argument hargument).closed_of_isClosed (h.arguments argument hargument)
  captured t? ht? t ht := (hkey.captured t? ht? t ht).closed_of_isClosed (h.captured t? ht? t ht)

/-- The body is checked from two sessions. -/
def pairing (f : FunctionInfo) (hplain : ∀ n ∈ f.body.nodes, n.isPlain = true) (s t : Session) : Pairing where
  reads x := x ∈ f.body.names
  own x := ∃ n ∈ f.body.nodes, x ∈ n.changes
  readsOwn x := by
    rintro ⟨n, hn, hx⟩
    exact FunctionBody.mem_names_of_mentions hn hplain (Node.mentions_of_mem_changes hx)
  left := ⟨s.scopes.all.size, s.scopes.generation, s.arena⟩
  right := ⟨t.scopes.all.size, t.scopes.generation, t.arena⟩

/-- Where the captured views are the same, the body starts from twins. -/
theorem SelfContained.twin (h : f.SelfContained t.scopes arguments)
    (hkey : CallKey.Sound (fun _ => False) ⟨arguments, f.capturedView t.scopes⟩) (hreads : f.reads = f.body.names)
    (hs : s.Placed) (ht : t.Placed) (hview : f.capturedView s.scopes = f.capturedView t.scopes) (other : FunctionId) :
    (f.pairing h.plain s t).Twin [] (s.entering other f arguments) (t.entering id f arguments) := by
  have hcaptured {x : String} (hx : x ∈ f.body.names) :
      (s.scopes.lookupFrom f.captured x).map (·.type) = (t.scopes.lookupFrom f.captured x).map (·.type) :=
    List.map_inj_left.1 hview x (hreads ▸ hx)
  have hparams : (Scopes.parameters arguments).All fun b => b.type.Closed := by
    refine Table.all_ofList fun item hitem => ?_
    obtain ⟨argument, hargument, rfl⟩ := List.mem_map.1 hitem
    exact hkey.arguments argument hargument
  have hown {x : String} (hx : (f.pairing h.plain s t).own x) :
      x ∈ arguments.map (·.1) ∨ s.scopes.lookupFrom f.captured x = none ∧ t.scopes.lookupFrom f.captured x = none := by
    have hread := (f.pairing h.plain s t).readsOwn x hx
    obtain ⟨n, hn, hx⟩ := hx
    refine (h.own n hn x hx).imp_right fun hnone => ⟨?_, hnone⟩
    have hsame := hcaptured hread
    rwa [hnone, Option.map_none, Option.map_eq_none_iff] at hsame
  have hleft {x : String} (hx : (f.pairing h.plain s t).own x) :=
    hs.scopes.own_enterFunction f.name f.captured arguments ((hown hx).imp_right And.left)
  have hright {x : String} (hx : (f.pairing h.plain s t).own x) :=
    ht.scopes.own_enterFunction f.name f.captured arguments ((hown hx).imp_right And.right)
  have hlookup (u : Session) (hu : u.Placed) (x : String) :=
    hu.scopes.lookupFrom_enterFunction f.name f.captured arguments x
  refine
    { left := rfl
      right := rfl
      scopes :=
        { left := hs.scopes.stands_enterFunction f.name f.captured arguments
          right := ht.scopes.stands_enterFunction f.name f.captured arguments
          size := ?_
          generation := ?_
          inner := fun d hd => absurd hd List.not_mem_nil
          closed := fun d hd => absurd hd List.not_mem_nil
          changed := fun d hd => absurd hd List.not_mem_nil
          reads := fun x hx => ?_
          readClosed := fun x hx b hb => ?_
          own := fun x hx => (hleft hx).1.trans (hright hx).1.symm
          ownLeft := fun x hx => (hleft hx).2.trans (hleft hx).1.symm
          ownRight := fun x hx => (hright hx).2.trans (hright hx).1.symm }
      memo := fun key => .stale (hs.memo key) (ht.memo key)
      frames := .head nofun nofun }
  · change (s.scopes.all.push _).size + t.scopes.all.size = (t.scopes.all.push _).size + s.scopes.all.size
    rw [Array.size_push, Array.size_push]
    omega
  · change s.scopes.generation + 1 + t.scopes.generation = t.scopes.generation + 1 + s.scopes.generation
    omega
  · change ((s.scopes.enterFunction f.name f.captured arguments).2.lookupFrom ⟨s.scopes.all.size⟩ x).map (·.type) =
      ((t.scopes.enterFunction f.name f.captured arguments).2.lookupFrom ⟨t.scopes.all.size⟩ x).map (·.type)
    rw [hlookup s hs, hlookup t ht]
    cases (Scopes.parameters arguments).get? x with
    | some b => rfl
    | none => exact hcaptured hx
  · change b ∈ (s.scopes.enterFunction f.name f.captured arguments).2.lookupFrom ⟨s.scopes.all.size⟩ x at hb
    rw [hlookup s hs] at hb
    cases hparam : (Scopes.parameters arguments).get? x with
    | some found =>
      rw [hparam] at hb
      obtain rfl := Option.mem_some.1 hb
      exact hparams.of_get? hparam
    | none =>
      rw [hparam, Option.none_or] at hb
      have hsome : (t.scopes.lookupFrom f.captured x).map (·.type) = some b.type := by
        rw [← hcaptured hx, Option.mem_def.1 hb]
        rfl
      exact hkey.captured _ (List.mem_map.2 ⟨x, hreads ▸ hx, rfl⟩) b.type hsome

theorem SelfContained.runBody_eq (h : f.SelfContained t.scopes arguments)
    (hkey : CallKey.Sound (fun _ => False) ⟨arguments, f.capturedView t.scopes⟩) (hreads : f.reads = f.body.names)
    (hints : ∀ span found, c.hints.get? span = some found → found.1.Closed) (hs : s.Placed) (ht : t.Placed)
    (hview : f.capturedView s.scopes = f.capturedView t.scopes) {m n : Nat} {inferred : Ty}
    (hgave : ((runBody (innerUpTo m) id f arguments).outcome c s).1 = .ok inferred)
    (hlasts : ((runBody (innerUpTo n) id f arguments).outcome c t).1 ≠ .error .exhausted) :
    ((runBody (innerUpTo n) id f arguments).outcome c t).1 = .ok inferred := by
  have htwin : (f.pairing h.plain s t).Twin [] (s.entering id f arguments) (t.entering id f arguments) :=
    h.twin hkey hreads hs ht hview id
  have hinside : Inside c (f.pairing h.plain s t) (innerUpTo m) (innerUpTo n) := inside_innerUpTo hints m n
  have hadmits (node : Node) (hnode : node ∈ f.body.nodes) : (f.pairing h.plain s t).Admits node :=
    ⟨h.plain node hnode, fun x hx => ⟨node, hnode, hx⟩,
      fun x hx => FunctionBody.mem_names_of_mentions hnode h.plain hx⟩
  have hbody : Parallel c (f.pairing h.plain s t) [] (evaluateBody (innerUpTo m) f.body)
      (evaluateBody (innerUpTo n) f.body) fun _ => True := by
    cases hform : f.body with
    | statements definition =>
      exact (hinside.block fun node hnode => hadmits node (hform ▸ hnode)).andPure trivial
    | lambda value =>
      refine Parallel.map (hinside.expr fun k hk => hadmits _ ?_) fun _ _ => trivial
      rw [hform]
      exact List.mem_map_of_mem hk
  have hagrees := hbody _ _ htwin
  rw [outcome_runBody] at hgave hlasts ⊢
  generalize (evaluateBody (innerUpTo m) f.body).outcome c (s.entering id f arguments) = o at hagrees hgave
  generalize (evaluateBody (innerUpTo n) f.body).outcome c (t.entering id f arguments) = o' at hagrees hlasts ⊢
  cases hagrees with
  | ok _ hst =>
    rw [← hgave]
    exact congrArg Except.ok (hst.returned_eq id id f _).symm
  | fault hst => cases hgave
  | left => cases hgave
  | right => exact absurd rfl hlasts

end FunctionInfo

theorem Session.Founded.call {t : Session} (h : t.Founded) {id : FunctionId} {call : CallKey × Ty}
    (hcall : call ∈ (t.arena.functionAt id).calls) : call.1.Sound t.Has := by
  by_cases hid : id.val < t.arena.functions.size
  · exact ((h.arena.function id hid).calls call hcall).1
  · have hnone : t.arena.functionAt id = default := getD_of_not_lt hid
    rw [hnone] at hcall
    exact absurd hcall List.not_mem_nil

namespace Job

variable {job : Job} {t : Session} {id : FunctionId} {arguments : List (String × Ty)} {known : Ty}

/-- What a function remembers of a call is what its body gives, calls forgotten, in each session that a run comes to:
if the function declares what it returns, or if the body gave it in the run and the call is self-contained. -/
theorem Proper.adequate (h : job.Proper) (ht : job.Visits t)
    (hknown : (t.arena.functionAt id).cached? ⟨arguments, (t.arena.functionAt id).capturedView t.scopes⟩ = some known)
    (hsettled : (∃ definition, (t.arena.functionAt id).body = .statements definition ∧
        (t.arena.functionAt id).declared?.isSome = true) ∨
      ((t.arena.functionAt id).SelfContained t.scopes arguments ∧
        (job.world.arena.functionAt id).cached? ⟨arguments, (t.arena.functionAt id).capturedView t.scopes⟩ = none)) :
    ∃ m, ∀ n, m ≤ n → ∃ result, t.reevaluated job.context n id arguments = .ok result ∧ known.alike result = true := by
  let f := t.arena.functionAt id
  let started : Session :=
    { t with arena := t.arena.forgetCalls, guard := (t.guard.enter? f.guardKey).getD t.guard }
  have hterms := h.trueTerms_of_visits ht
  have hfounded := h.sound.founded_of_visits ht
  refine ⟨fuelWith job.nodes job.keys.length job.nodes, fun n hn => ?_⟩
  rcases hsettled with ⟨definition, hbody, hdeclared⟩ | ⟨hself, hnew⟩
  · obtain ⟨declared, hdeclared⟩ := Option.isSome_iff_exists.1 hdeclared
    obtain ⟨inferred, hresult⟩ := h.reevaluated_ok hterms hbody arguments hn
    have hsame : known = declared := (hterms.truthful id.val).cached? hdeclared hknown
    refine ⟨declared, ?_, hsame ▸ Ty.alike_refl known⟩
    rw [hresult, hdeclared]
    rfl
  · obtain ⟨call, hfind, rfl⟩ := Option.map_eq_some_iff.1 hknown
    have htraced := h.traced_of_visits ht id
    have hcall : call ∈ f.calls := List.mem_of_find?_eq_some hfind
    have hagrees := List.find?_some hfind
    have hkey : call.1 = ⟨arguments, f.capturedView t.scopes⟩ := CallKey.eq_of_agrees hagrees
    have hclosed : CallKey.Sound (fun _ => False) ⟨arguments, f.capturedView t.scopes⟩ :=
      hself.closedKey (hkey ▸ hfounded.call hcall)
    rcases htraced.calls call hcall with hold | hgave
    · have hnone := List.find?_eq_none.1 (Option.map_eq_none_iff.1 hnew) call hold
      exact absurd hagrees hnone
    · rw [hkey] at hgave
      obtain ⟨m, s, u, inferred, hs, hview, hrun, hresult⟩ := hgave
      have hstarted : started.Placed := { hfounded.placed with }
      have hlasts := h.reevaluated_lasts hterms id arguments hn
      have hbody : ((runBody (innerUpTo n) id f arguments).outcome job.context started).1 = .ok inferred := by
        refine FunctionInfo.SelfContained.runBody_eq (t := started) hself hclosed htraced.reads h.hints hs hstarted
          hview (congrArg Prod.fst hrun) fun hstop => hlasts ?_
        exact congrArg (Except.map (f.declared?.getD ·)) hstop
      refine ⟨f.declared?.getD inferred, congrArg (Except.map (f.declared?.getD ·)) hbody, ?_⟩
      rw [hresult]
      exact Ty.alike_refl _

/-- A run on `k = 2`, on `def f(p)`, which binds `t` to `len(p)` and if `p` holds to `k` and returns it, and on
calls `f([1])` and `f("s")`. -/
def measuring : Job :=
  let name (id : Nat) (x : String) : Expr := ⟨id, .name x, default⟩
  let number (id : Nat) (n : Nat) : Expr := ⟨id, .number (.int n), default⟩
  let call (id : Nat) (func : Expr) (args : List Expr) : Expr := ⟨id, .call func args [], default⟩
  let assign (id : Nat) (target value : Expr) : Stmt := ⟨id, .assign [target] value, default⟩
  { empty with
    module :=
      { body := [
          assign 0 (name 1 "k") (number 2 2),
          ⟨3, .functionDef
            { name := "f", params := { args := [⟨"p", none, default⟩] }
              body := [
                assign 4 (name 5 "t") (call 6 (name 7 "len") [name 8 "p"]),
                ⟨9, .ifElse (name 10 "p") [assign 11 (name 12 "t") (name 13 "k")] [], default⟩,
                ⟨14, .ret (some (name 15 "t")), default⟩]
              returns := none, decorators := [], isAsync := false, span := default }, default⟩,
          assign 16 (name 17 "x") (call 18 (name 19 "f") [⟨20, .list [number 21 1], default⟩]),
          assign 22 (name 23 "y") (call 24 (name 25 "f") [⟨26, .str "s", default⟩])]
        file := "", span := default } }

theorem proper_measuring : measuring.Proper :=
  { proper_empty with }

/-- The result of `f([1])` comes from the body, and has been remembered in the run. -/
theorem adequate_measuring :
    let arguments : List (String × Ty) := [("p", .container (.ofElts .list [.int]))]
    let f := measuring.final.arena.functionAt ⟨0⟩
    let key : CallKey := ⟨arguments, f.capturedView measuring.final.scopes⟩
    measuring.Visits measuring.final ∧ f.declared? = none ∧ f.calls.length = 2 ∧
      f.SelfContained measuring.final.scopes arguments ∧
      (measuring.world.arena.functionAt ⟨0⟩).cached? key = none ∧
      ∃ known, f.cached? key = some known ∧ ∃ m, ∀ n, m ≤ n → ∃ result,
        measuring.final.reevaluated measuring.context n ⟨0⟩ arguments = .ok result ∧ known.alike result = true := by
  intro arguments f key
  have hrun : decide (f.declared?.isNone = true ∧ f.calls.length = 2 ∧
      f.SelfContained measuring.final.scopes arguments ∧
      ((measuring.world.arena.functionAt ⟨0⟩).cached? key).isNone = true ∧
      (f.cached? key).isSome = true) = true := by
    decide +kernel
  obtain ⟨hdeclared, hcalls, hself, hnew, hknown⟩ := of_decide_eq_true hrun
  obtain ⟨known, hknown⟩ := Option.isSome_iff_exists.1 hknown
  have hnew := Option.isNone_iff_eq_none.1 hnew
  refine ⟨measuring.visits_final, Option.isNone_iff_eq_none.1 hdeclared, hcalls, hself, hnew, known, hknown, ?_⟩
  exact proper_measuring.adequate measuring.visits_final hknown (.inr ⟨hself, hnew⟩)

end Job

end Credence

import Credence.Check.Call
import Credence.Proofs.Contents

namespace Credence.Ty.Stable

variable {P : Ty → Prop} (h : Stable P) {f : FunctionInfo}
include h

omit h in
theorem bindKeyword (probability : Float) {bound : Bound} {argument : String × Ty}
    (hbound : bound.table.All P ∧ ∀ t ∈ bound.spare, P t) (hargument : P argument.2) :
    (f.bindKeyword probability bound argument).table.All P ∧
      ∀ t ∈ (f.bindKeyword probability bound argument).spare, P t := by
  unfold FunctionInfo.bindKeyword
  simp only
  split
  · split
    · exact hbound
    · exact ⟨hbound.1.insert _ hargument, hbound.2⟩
  · split
    · exact ⟨hbound.1, List.forall_mem_append.2 ⟨hbound.2, List.forall_mem_singleton.2 hargument⟩⟩
    · exact hbound

theorem bindDefault {state : Table Ty × List String} {p : ParamInfo} (hstate : state.1.All P)
    (hp : ∀ t ∈ p.default, P t) : (FunctionInfo.bindDefault state p).1.All P := by
  unfold FunctionInfo.bindDefault
  split
  · exact hstate
  · split
    · rename_i t ht
      exact hstate.insert _ (hp t ht)
    · exact hstate.insert _ h.any

theorem bindCollectors {extra spare : List Ty} {bound : Table Ty} (hextra : ∀ t ∈ extra, P t)
    (hspare : ∀ t ∈ spare, P t) (hbound : bound.All P) :
    (f.bindCollectors extra spare bound).All P := by
  have hvalues : P (if (Ty.oneOf spare).isUnknown then .dictOf [] []
      else .dictOf [.str] [.oneOf spare]) := by
    split
    · exact h.dictOf (h.prims []) (h.prims [])
    · exact h.dictOf (h.prims [.str]) (List.forall_mem_singleton.2 (h.oneOf _ hspare))
  have hpositional (p : ParamInfo) : Table.All P (bound.insert p.name (.tupleOf extra)) :=
    hbound.insert _ (h.tupleOf hextra)
  unfold FunctionInfo.bindCollectors
  cases f.signature.vararg with
  | none =>
    cases f.signature.kwarg with
    | none => exact hbound
    | some _ => exact hbound.insert _ hvalues
  | some p =>
    cases f.signature.kwarg with
    | none => exact hpositional p
    | some _ => exact (hpositional p).insert _ hvalues

omit h in
theorem holdToAscription {a : Arena} {probability : Float} {state : Table Ty × List Finding}
    {p : ParamInfo} (hstate : state.1.All P) (hp : ∀ t ∈ p.ascribed, P t) :
    (f.holdToAscription a probability state p).1.All P := by
  unfold FunctionInfo.holdToAscription
  split
  · rename_i ascribed value hascribed _
    repeat' split
    · exact hstate
    · exact hstate.insert _ (hp ascribed hascribed)
    · exact hstate
    · exact hstate.insert _ (hp ascribed hascribed)
  · exact hstate

theorem bindArguments
    (hf : ∀ p ∈ f.signature.all, (∀ t ∈ p.ascribed, P t) ∧ ∀ t ∈ p.default, P t) (a : Arena)
    (probability : Float) {receiver : Option Ty} (hreceiver : ∀ t ∈ receiver, P t) {args : CallArgs}
    (hpositional : ∀ t ∈ args.positional, P t) (hkeywords : ∀ keyword ∈ args.keywords, P keyword.2) :
    ∀ argument ∈ (f.bindArguments a probability receiver args).1, P argument.2 := by
  have hvalues : ∀ t ∈ receiver.toList ++ args.positional, P t := fun t ht =>
    (List.mem_append.1 ht).elim (fun ht => hreceiver t (Option.mem_toList.1 ht)) (hpositional t)
  have hnamed : ∀ p ∈ f.signature.named, (∀ t ∈ p.ascribed, P t) ∧ ∀ t ∈ p.default, P t := by
    intro p hp
    refine hf p ?_
    simp only [Signature.named, Signature.all, List.mem_append] at hp ⊢
    exact hp.elim (fun hp => .inl (.inl (.inl hp))) fun hp => .inl (.inr hp)
  have hplaced : (f.bindPositional (receiver.toList ++ args.positional)).All P :=
    Table.all_ofList fun item hitem => hvalues _ (List.of_mem_zip hitem).2
  have hnames := List.foldlRecOn args.keywords (f.bindKeyword probability)
    (b := { table := f.bindPositional (receiver.toList ++ args.positional) })
    (motive := fun bound => bound.table.All P ∧ ∀ t ∈ bound.spare, P t)
    ⟨hplaced, fun _ h => absurd h List.not_mem_nil⟩
    fun _ h argument hargument => bindKeyword probability h (hkeywords argument hargument)
  have hfilled := List.foldlRecOn f.signature.named FunctionInfo.bindDefault
    (b := ((args.keywords.foldl (f.bindKeyword probability)
      { table := f.bindPositional (receiver.toList ++ args.positional) }).table, []))
    (motive := fun state => Table.All P state.1) hnames.1
    fun _ hstate p hp => h.bindDefault hstate (hnamed p hp).2
  have hextra : ∀ t ∈ (receiver.toList ++ args.positional).drop f.signature.args.length, P t :=
    fun t ht => hvalues t (List.mem_of_mem_drop ht)
  have hfull := h.bindCollectors (f := f) hextra hnames.2 hfilled
  have hheld (findings : List Finding) := List.foldlRecOn f.signature.named
    (f.holdToAscription a probability) (b := (_, findings))
    (motive := fun state => Table.All P state.1) hfull
    fun _ hstate p hp => holdToAscription hstate (hnamed p hp).1
  exact hheld _

theorem returnedType {frame : Frame} (hreturns : ∀ t ∈ frame.returns, P t)
    (hyields : ∀ t ∈ frame.yields, P t) : P (f.returnedType frame) := by
  unfold FunctionInfo.returnedType
  split
  · exact h.foldl_pushKnown (h.empty _) hyields
  · refine h.oneOf _ ?_
    split
    · exact hreturns
    · exact List.forall_mem_append.2 ⟨hreturns, List.forall_mem_singleton.2 (h.prim _)⟩

end Credence.Ty.Stable

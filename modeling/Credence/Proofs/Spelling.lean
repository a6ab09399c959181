import Credence.Grammar.Power
import Credence.Text.Letter
import Credence.Tree.Expr
import Mathlib.Data.List.Forall2

namespace Credence

/-- The rungs of the ladder of operators, from the loosest to the tightest. -/
inductive Rung where
  | conditional | or | and | not | comparison | bitOr | bitXor | bitAnd | shift | additive
  | multiplicative | unary | power | trailer

def Rung.height : Rung → Nat
  | conditional => 1
  | or => 2
  | and => 3
  | not => 4
  | comparison => 5
  | bitOr => 6
  | bitXor => 7
  | bitAnd => 8
  | shift => 9
  | additive => 10
  | multiplicative => 11
  | unary => 12
  | power => 13
  | trailer => 14

def BinaryOp.rung : BinaryOp → Rung
  | add | sub => .additive
  | mult | matMult | div | floorDiv | mod => .multiplicative
  | pow => .power
  | shiftLeft | shiftRight => .shift
  | bitOr => .bitOr
  | bitXor => .bitXor
  | bitAnd => .bitAnd

def UnaryOp.rung : UnaryOp → Rung
  | not => .not
  | neg | pos | invert => .unary

def BoolOp.rung : BoolOp → Rung
  | and => .and
  | or => .or

def UnaryOp.word : UnaryOp → String
  | not => "not"
  | neg => "-"
  | pos => "+"
  | invert => "~"

def BoolOp.word : BoolOp → String
  | and => "and"
  | or => "or"

/-- A comparison is one word or two. -/
def CompareOp.words : CompareOp → List String
  | eq => ["=="]
  | notEq => ["!="]
  | less => ["<"]
  | lessEq => ["<="]
  | greater => [">"]
  | greaterEq => [">="]
  | is => ["is"]
  | isNot => ["is", "not"]
  | isIn => ["in"]
  | notIn => ["not", "in"]

namespace Grammar

open Token (Kind)

/-- An expression of names, operators, attributes, subscripts and calls. -/
inductive Tree where
  | name (name : String)
  | binary (left : Tree) (op : BinaryOp) (right : Tree)
  | unary (op : UnaryOp) (operand : Tree)
  | boolean (op : BoolOp) (values : List Tree)
  | comparison (left : Tree) (rest : List (CompareOp × Tree))
  | conditional (test body orelse : Tree)
  | member (value : Tree) (attr : String)
  | subscript (value index : Tree)
  | call (func : Tree) (args : List Tree)

/-- The same comparison, with operands of which a relation holds. -/
inductive Compared {α β : Type} (r : α → β → Prop) : CompareOp × α → CompareOp × β → Prop
  | mk {a : α} {b : β} (op : CompareOp) (h : r a b) : Compared r (op, a) (op, b)

namespace Tree

/-- An expression is a tree, whatever the identities and the spans of its nodes are. -/
inductive Is : Tree → Expr → Prop
  | name {e : Expr} {name : String} (he : e.form = .name name) : Is (.name name) e
  | binary {e l r : Expr} {left right : Tree} {op : BinaryOp} (hl : left.Is l) (hr : right.Is r)
      (he : e.form = .binOp l op r) : Is (.binary left op right) e
  | unary {e x : Expr} {operand : Tree} {op : UnaryOp} (hx : operand.Is x)
      (he : e.form = .unaryOp op x) : Is (.unary op operand) e
  | boolean {e : Expr} {es : List Expr} {op : BoolOp} {values : List Tree}
      (hes : List.Forall₂ Is values es) (he : e.form = .boolOp op es) : Is (.boolean op values) e
  | comparison {e l : Expr} {es : List (CompareOp × Expr)} {left : Tree}
      {rest : List (CompareOp × Tree)} (hl : left.Is l)
      (hes : List.Forall₂ (Compared Is) rest es)
      (he : e.form = .compare l es) : Is (.comparison left rest) e
  | conditional {e t b o : Expr} {test body orelse : Tree} (ht : test.Is t) (hb : body.Is b)
      (ho : orelse.Is o) (he : e.form = .ifExp t b o) : Is (.conditional test body orelse) e
  | member {e v : Expr} {value : Tree} {attr : String} (hv : value.Is v)
      (he : e.form = .member v attr) : Is (.member value attr) e
  | subscript {e v i : Expr} {value index : Tree} (hv : value.Is v) (hi : index.Is i)
      (he : e.form = .subscript v i) : Is (.subscript value index) e
  | call {e f : Expr} {es : List Expr} {func : Tree} {args : List Tree} (hf : func.Is f)
      (hes : List.Forall₂ Is args es) (he : e.form = .call f es []) : Is (.call func args) e

def isChainOf (op : BoolOp) : Tree → Prop
  | .boolean found _ => found = op
  | _ => False

end Tree

structure IsName (word : String) : Prop where
  starts : word.toList.head?.any Text.startsName = true
  continues : ∀ c ∈ word.toList, Text.continuesName c = true
  unreserved : Kind.ofWord word = .identifier

/-- Operands one after the other, each behind the words that introduce it. -/
inductive Introduced (spells : Nat → Tree → List String → Prop) :
    List (List String × Tree) → List String → Nat → Prop
  | nil {k : Nat} : Introduced spells [] [] k
  | cons {k : Nat} {lead us vs : List String} {t : Tree} {rest : List (List String × Tree)}
      (ht : spells k t us) (hrest : Introduced spells rest vs k) :
      Introduced spells ((lead, t) :: rest) (lead ++ (us ++ vs)) k

/-- The words that spell a tree from a height of the ladder on: on a lower rung it stands in
parentheses, and it may on any other. -/
inductive Spells : Nat → Tree → List String → Prop
  | parens {k : Nat} {t : Tree} {us : List String} (h : Spells 0 t us) :
      Spells k t ("(" :: (us ++ [")"]))
  | name {k : Nat} {name : String} (h : IsName name) : Spells k (.name name) [name]
  | binary {k : Nat} {l r : Tree} {op : BinaryOp} {us vs : List String} (hop : op ≠ .pow)
      (hk : k ≤ op.rung.height) (hl : Spells op.rung.height l us)
      (hr : Spells (op.rung.height + 1) r vs) : Spells k (.binary l op r) (us ++ op.symbol :: vs)
  /-- The power groups to the right, and its right operand may have a sign. -/
  | power {k : Nat} {l r : Tree} {us vs : List String} (hk : k ≤ Rung.power.height)
      (hl : Spells (Rung.power.height + 1) l us) (hr : Spells Rung.unary.height r vs) :
      Spells k (.binary l .pow r) (us ++ BinaryOp.pow.symbol :: vs)
  | unary {k : Nat} {t : Tree} {op : UnaryOp} {us : List String} (hk : k ≤ op.rung.height)
      (h : Spells op.rung.height t us) : Spells k (.unary op t) (op.word :: us)
  /-- A chain of one connective is one node, which is why it does not start with such a node. -/
  | boolean {k : Nat} {t : Tree} {op : BoolOp} {ts : List Tree} {us vs : List String}
      (hk : k ≤ op.rung.height) (hflat : ¬ t.isChainOf op) (h : Spells (op.rung.height + 1) t us)
      (hne : ts ≠ []) (hts : Introduced Spells (ts.map ([op.word], ·)) vs (op.rung.height + 1)) :
      Spells k (.boolean op (t :: ts)) (us ++ vs)
  | comparison {k : Nat} {t : Tree} {rest : List (CompareOp × Tree)} {us vs : List String}
      (hk : k ≤ Rung.comparison.height) (h : Spells (Rung.comparison.height + 1) t us)
      (hne : rest ≠ [])
      (hrest : Introduced Spells (rest.map fun r => (r.1.words, r.2)) vs
        (Rung.comparison.height + 1)) :
      Spells k (.comparison t rest) (us ++ vs)
  /-- Conditional expressions group to the right, in their else part. -/
  | conditional {k : Nat} {test body orelse : Tree} {us vs ws : List String}
      (hk : k ≤ Rung.conditional.height) (hbody : Spells (Rung.conditional.height + 1) body us)
      (htest : Spells (Rung.conditional.height + 1) test vs)
      (horelse : Spells Rung.conditional.height orelse ws) :
      Spells k (.conditional test body orelse) (us ++ "if" :: (vs ++ "else" :: ws))
  | member {k : Nat} {t : Tree} {attr : String} {us : List String} (hk : k ≤ Rung.trailer.height)
      (h : Spells Rung.trailer.height t us) (hattr : IsName attr) :
      Spells k (.member t attr) (us ++ [".", attr])
  | subscript {k : Nat} {t index : Tree} {us vs : List String} (hk : k ≤ Rung.trailer.height)
      (h : Spells Rung.trailer.height t us) (hindex : Spells 0 index vs) :
      Spells k (.subscript t index) (us ++ "[" :: (vs ++ ["]"]))
  | callNone {k : Nat} {t : Tree} {us : List String} (hk : k ≤ Rung.trailer.height)
      (h : Spells Rung.trailer.height t us) : Spells k (.call t []) (us ++ ["(", ")"])
  | call {k : Nat} {t arg : Tree} {args : List Tree} {us vs ws : List String}
      (hk : k ≤ Rung.trailer.height) (h : Spells Rung.trailer.height t us) (harg : Spells 0 arg vs)
      (hargs : Introduced Spells (args.map ([","], ·)) ws 0) :
      Spells k (.call t (arg :: args)) (us ++ "(" :: (vs ++ (ws ++ [")"])))

inductive Spaced : List String → List Char → Prop
  | last (word : String) (spaces : Nat) : Spaced [word] (word.toList ++ List.replicate spaces ' ')
  | cons {words : List String} {line : List Char} (word : String) (spaces : Nat)
      (h : Spaced words line) :
      Spaced (word :: words) (word.toList ++ (List.replicate (spaces + 1) ' ' ++ line))

theorem Introduced.imp {p q : Nat → Tree → List String → Prop}
    {rest : List (List String × Tree)} {vs : List String} {k : Nat} (h : Introduced p rest vs k)
    (hlead : ∀ r ∈ rest, r.1 ≠ []) (hpq : ∀ {t us}, us.length < vs.length → p k t us → q k t us) :
    Introduced q rest vs k := by
  induction h with
  | nil => exact .nil
  | @cons k lead us vs t rest ht _ ih =>
    obtain ⟨hfirst, hrest⟩ := List.forall_mem_cons.1 hlead
    have hpos : 0 < lead.length := List.length_pos_iff.2 hfirst
    refine .cons (hpq ?_ ht) (ih hrest fun hlen => hpq (Nat.lt_of_lt_of_le hlen ?_)) <;>
    · simp only [List.length_append]
      omega

theorem Introduced.words {p : Nat → Tree → List String → Prop} {P : String → Prop}
    {rest : List (List String × Tree)} {vs : List String} {k : Nat} (h : Introduced p rest vs k)
    (hlead : ∀ r ∈ rest, ∀ w ∈ r.1, P w) (hp : ∀ {t us}, p k t us → ∀ w ∈ us, P w) :
    ∀ w ∈ vs, P w := by
  induction h with
  | nil => exact nofun
  | @cons k lead us vs t rest ht _ ih =>
    obtain ⟨hfirst, hrest⟩ := List.forall_mem_cons.1 hlead
    intro w hw
    obtain hw | hw := List.mem_append.1 hw
    · exact hfirst w hw
    · obtain hw | hw := List.mem_append.1 hw
      · exact hp ht w hw
      · exact ih hrest hp w hw

theorem Spells.strong {P : Nat → Tree → List String → Prop}
    (step : ∀ {k t ws}, Spells k t ws →
      (∀ {j s us}, us.length < ws.length → Spells j s us → P j s us) → P k t ws)
    {k : Nat} {t : Tree} {ws : List String} (h : Spells k t ws) : P k t ws := by
  induction hn : ws.length using Nat.strongRecOn generalizing k t ws with
  | _ n ih =>
    refine step h fun hlen hs => ?_
    rw [hn] at hlen
    exact ih _ hlen hs rfl

def fixedWords : List String :=
  ["(", ")", "[", "]", ".", ",", "+", "-", "*", "@", "/", "//", "%", "**", "<<", ">>", "|", "^", "&",
    "~", "==", "!=", "<", "<=", ">", ">=", "is", "in", "not", "and", "or", "if", "else"]

theorem symbol_mem_fixedWords (op : BinaryOp) : op.symbol ∈ fixedWords := by
  cases op <;> decide

theorem unaryWord_mem_fixedWords (op : UnaryOp) : op.word ∈ fixedWords := by
  cases op <;> decide

def IsLead (lead : List String) : Prop :=
  lead ≠ [] ∧ ∀ w ∈ lead, w ∈ fixedWords

theorem isLead_boolean (op : BoolOp) : IsLead [op.word] := by
  cases op <;> exact ⟨nofun, by decide⟩

theorem isLead_words (op : CompareOp) : IsLead op.words := by
  cases op <;> exact ⟨nofun, by decide⟩

theorem isLead_comma : IsLead [","] :=
  ⟨nofun, by decide⟩

theorem Introduced.length_le {α : Type} {f : α → List String × Tree} {as : List α}
    {p : Nat → Tree → List String → Prop} {vs : List String} {k : Nat}
    (h : Introduced p (as.map f) vs k) (hlead : ∀ a, IsLead (f a).1) : as.length ≤ vs.length := by
  induction as generalizing vs with
  | nil => exact Nat.zero_le _
  | cons a as ih =>
    have hpos := List.length_pos_iff.2 (hlead a).1
    rw [List.map_cons] at h
    cases hf : f a with
    | mk lead t =>
      rw [hf] at h hpos
      cases h with
      | cons ht hrest =>
        have hle := ih hrest
        simp only [List.length_append, List.length_cons] at hpos ⊢
        omega

def IsWord (word : String) : Prop :=
  IsName word ∨ word ∈ fixedWords

theorem Spells.isWord {k : Nat} {t : Tree} {ws : List String} (h : Spells k t ws) :
    ∀ w ∈ ws, IsWord w := by
  refine Spells.strong (P := fun _ _ ws => ∀ w ∈ ws, IsWord w) (fun {k t ws} h ih => ?_) h
  have hfixed {w : String} (hw : w ∈ fixedWords) : IsWord w := .inr hw
  have hmore {α : Type} {f : α → List String × Tree} {as : List α} {vs : List String} {j : Nat}
      (hrest : Introduced Spells (as.map f) vs j) (hle : vs.length ≤ ws.length)
      (hlead : ∀ a, IsLead (f a).1) : ∀ w ∈ vs, IsWord w :=
    (hrest.imp (q := fun _ _ us => ∀ w ∈ us, IsWord w) (List.forall_mem_map.2 fun a _ => (hlead a).1)
      fun hlen => ih (Nat.lt_of_lt_of_le hlen hle)).words
      (List.forall_mem_map.2 fun a _ w hw => hfixed ((hlead a).2 w hw)) fun hs => hs
  cases h with
  | parens h =>
    exact List.forall_mem_cons.2 ⟨hfixed (by decide), List.forall_mem_append.2
      ⟨ih (by simp +arith) h, List.forall_mem_singleton.2 (hfixed (by decide))⟩⟩
  | name h => exact List.forall_mem_singleton.2 (.inl h)
  | binary hop hk hl hr =>
    exact List.forall_mem_append.2 ⟨ih (by simp) hl, List.forall_mem_cons.2
      ⟨hfixed (symbol_mem_fixedWords _), ih (by simp +arith) hr⟩⟩
  | power hk hl hr =>
    exact List.forall_mem_append.2 ⟨ih (by simp) hl, List.forall_mem_cons.2
      ⟨hfixed (symbol_mem_fixedWords _), ih (by simp +arith) hr⟩⟩
  | unary hk h =>
    exact List.forall_mem_cons.2 ⟨hfixed (unaryWord_mem_fixedWords _), ih (by simp) h⟩
  | boolean hk hflat h hne hts =>
    have hpos := Nat.lt_of_lt_of_le (List.length_pos_iff.2 hne) (hts.length_le fun _ => isLead_boolean _)
    exact List.forall_mem_append.2 ⟨ih (by simpa using hpos) h,
      hmore hts (by simp) fun _ => isLead_boolean _⟩
  | comparison hk h hne hrest =>
    have hpos := Nat.lt_of_lt_of_le (List.length_pos_iff.2 hne) (hrest.length_le fun r => isLead_words r.1)
    exact List.forall_mem_append.2 ⟨ih (by simpa using hpos) h,
      hmore hrest (by simp) fun r => isLead_words r.1⟩
  | conditional hk hbody htest horelse =>
    exact List.forall_mem_append.2 ⟨ih (by simp) hbody, List.forall_mem_cons.2 ⟨hfixed (by decide),
      List.forall_mem_append.2 ⟨ih (by simp +arith) htest, List.forall_mem_cons.2
        ⟨hfixed (by decide), ih (by simp +arith) horelse⟩⟩⟩⟩
  | member hk h hattr =>
    exact List.forall_mem_append.2 ⟨ih (by simp) h, List.forall_mem_cons.2 ⟨hfixed (by decide),
      List.forall_mem_singleton.2 (.inl hattr)⟩⟩
  | subscript hk h hindex =>
    exact List.forall_mem_append.2 ⟨ih (by simp) h, List.forall_mem_cons.2 ⟨hfixed (by decide),
      List.forall_mem_append.2 ⟨ih (by simp +arith) hindex,
        List.forall_mem_singleton.2 (hfixed (by decide))⟩⟩⟩
  | callNone hk h =>
    exact List.forall_mem_append.2 ⟨ih (by simp) h, List.forall_mem_cons.2 ⟨hfixed (by decide),
      List.forall_mem_singleton.2 (hfixed (by decide))⟩⟩
  | call hk h harg hargs =>
    exact List.forall_mem_append.2 ⟨ih (by simp) h, List.forall_mem_cons.2 ⟨hfixed (by decide),
      List.forall_mem_append.2 ⟨ih (by simp +arith) harg, List.forall_mem_append.2
        ⟨hmore hargs (by simp +arith) fun _ => isLead_comma,
          List.forall_mem_singleton.2 (hfixed (by decide))⟩⟩⟩⟩

end Grammar

end Credence

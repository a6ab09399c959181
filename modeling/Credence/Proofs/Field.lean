import Credence.Tree.Stmt

namespace Credence

variable {ε σ : Type}

/-- The fields of a comprehension clause. -/
inductive Clause.Holds : Clause ε → ε → Prop where
  | target {c : Clause ε} : c.Holds c.target
  | iter {c : Clause ε} : c.Holds c.iter
  | condition {c : Clause ε} {e : ε} (h : e ∈ c.conditions) : c.Holds e

inductive Params.Defaults : Params ε → ε → Prop where
  | positional {ps : Params ε} {e : ε} (h : e ∈ ps.defaults) : ps.Defaults e
  | keywordOnly {ps : Params ε} {e : ε} (h : some e ∈ ps.kwDefaults) : ps.Defaults e

inductive Params.Annotates : Params ε → ε → Prop where
  | positional {ps : Params ε} {p : Param ε} {e : ε} (hp : p ∈ ps.args) (h : p.ascription = some e) :
    ps.Annotates e
  | rest {ps : Params ε} {p : Param ε} {e : ε} (hp : ps.vararg = some p) (h : p.ascription = some e) :
    ps.Annotates e
  | keywordOnly {ps : Params ε} {p : Param ε} {e : ε} (hp : p ∈ ps.kwonly)
    (h : p.ascription = some e) : ps.Annotates e
  | mapping {ps : Params ε} {p : Param ε} {e : ε} (hp : ps.kwarg = some p)
    (h : p.ascription = some e) : ps.Annotates e

namespace ExprForm

/-- The fields of an expression, annotations aside. -/
inductive Holds : ExprForm ε → ε → Prop where
  | list {elts : List ε} {e : ε} (h : e ∈ elts) : Holds (.list elts) e
  | tuple {elts : List ε} {e : ε} (h : e ∈ elts) : Holds (.tuple elts) e
  | set {elts : List ε} {e : ε} (h : e ∈ elts) : Holds (.set elts) e
  | key {items : List (Option ε × ε)} {key value : ε} (h : (some key, value) ∈ items) :
    Holds (.dict items) key
  | value {items : List (Option ε × ε)} {key : Option ε} {value : ε} (h : (key, value) ∈ items) :
    Holds (.dict items) value
  | listElt {elt : ε} {clauses : List (Clause ε)} : Holds (.listComp elt clauses) elt
  | listClause {elt e : ε} {clauses : List (Clause ε)} {c : Clause ε} (hc : c ∈ clauses)
    (h : c.Holds e) : Holds (.listComp elt clauses) e
  | setElt {elt : ε} {clauses : List (Clause ε)} : Holds (.setComp elt clauses) elt
  | setClause {elt e : ε} {clauses : List (Clause ε)} {c : Clause ε} (hc : c ∈ clauses)
    (h : c.Holds e) : Holds (.setComp elt clauses) e
  | generatorElt {elt : ε} {clauses : List (Clause ε)} : Holds (.generator elt clauses) elt
  | generatorClause {elt e : ε} {clauses : List (Clause ε)} {c : Clause ε} (hc : c ∈ clauses)
    (h : c.Holds e) : Holds (.generator elt clauses) e
  | dictKey {key value : ε} {clauses : List (Clause ε)} : Holds (.dictComp key value clauses) key
  | dictValue {key value : ε} {clauses : List (Clause ε)} :
    Holds (.dictComp key value clauses) value
  | dictClause {key value e : ε} {clauses : List (Clause ε)} {c : Clause ε} (hc : c ∈ clauses)
    (h : c.Holds e) : Holds (.dictComp key value clauses) e
  | lambdaDefault {params : Params ε} {body e : ε} (h : params.Defaults e) :
    Holds (.lambda params body) e
  | lambdaBody {params : Params ε} {body : ε} : Holds (.lambda params body) body
  | test {test body orelse : ε} : Holds (.ifExp test body orelse) test
  | body {test body orelse : ε} : Holds (.ifExp test body orelse) body
  | orelse {test body orelse : ε} : Holds (.ifExp test body orelse) orelse
  | connected {op : BoolOp} {values : List ε} {e : ε} (h : e ∈ values) : Holds (.boolOp op values) e
  | left {left right : ε} {op : BinaryOp} : Holds (.binOp left op right) left
  | right {left right : ε} {op : BinaryOp} : Holds (.binOp left op right) right
  | operand {op : UnaryOp} {operand : ε} : Holds (.unaryOp op operand) operand
  | compared {left : ε} {rest : List (CompareOp × ε)} : Holds (.compare left rest) left
  | comparand {left e : ε} {op : CompareOp} {rest : List (CompareOp × ε)} (h : (op, e) ∈ rest) :
    Holds (.compare left rest) e
  | func {func : ε} {args : List ε} {keywords : List (Keyword ε)} :
    Holds (.call func args keywords) func
  | arg {func e : ε} {args : List ε} {keywords : List (Keyword ε)} (h : e ∈ args) :
    Holds (.call func args keywords) e
  | keyword {func : ε} {args : List ε} {keywords : List (Keyword ε)} {k : Keyword ε}
    (h : k ∈ keywords) : Holds (.call func args keywords) k.value
  | owner {value : ε} {attr : String} : Holds (.member value attr) value
  | container {value index : ε} : Holds (.subscript value index) value
  | index {value index : ε} : Holds (.subscript value index) index
  | lower {lower : ε} {upper step : Option ε} : Holds (.slice (some lower) upper step) lower
  | upper {upper : ε} {lower step : Option ε} : Holds (.slice lower (some upper) step) upper
  | step {step : ε} {lower upper : Option ε} : Holds (.slice lower upper (some step)) step
  | starred {value : ε} : Holds (.starred value) value
  | awaited {value : ε} : Holds (.await value) value
  | yielded {value : ε} : Holds (.yield (some value)) value
  | delegated {value : ε} : Holds (.yieldFrom value) value
  | target {target value : ε} : Holds (.named target value) target
  | named {target value : ε} : Holds (.named target value) value

end ExprForm

namespace StmtForm

/-- The fields of a statement that hold expressions, apart from those which a definition hides. -/
inductive Holds : StmtForm σ → Expr → Prop where
  | value {e : Expr} : Holds (.expr e) e
  | target {targets : List Expr} {value e : Expr} (h : e ∈ targets) :
    Holds (.assign targets value) e
  | assigned {targets : List Expr} {value : Expr} : Holds (.assign targets value) value
  | ascribed {target ascription : Expr} {value : Option Expr} :
    Holds (.ascribe target ascription value) target
  | ascription {target ascription : Expr} {value : Option Expr} :
    Holds (.ascribe target ascription value) ascription
  | ascribedValue {target ascription value : Expr} :
    Holds (.ascribe target ascription (some value)) value
  | augmented {target value : Expr} {op : BinaryOp} : Holds (.augAssign target op value) target
  | augment {target value : Expr} {op : BinaryOp} : Holds (.augAssign target op value) value
  | result {value : Expr} : Holds (.ret (some value)) value
  | ifTest {test : Expr} {body orelse : List σ} : Holds (.ifElse test body orelse) test
  | whileTest {test : Expr} {body orelse : List σ} : Holds (.whileLoop test body orelse) test
  | forTarget {target iter : Expr} {body orelse : List σ} {isAsync : Bool} :
    Holds (.forLoop target iter body orelse isAsync) target
  | forIter {target iter : Expr} {body orelse : List σ} {isAsync : Bool} :
    Holds (.forLoop target iter body orelse isAsync) iter
  | handlerType {body orelse finalbody : List σ} {handlers : List (Handler σ)} {handler : Handler σ}
    {type : Expr} (hh : handler ∈ handlers) (h : handler.type = some type) :
    Holds (.tryExcept body handlers orelse finalbody) type
  | context {items : List WithItem} {item : WithItem} {body : List σ} {isAsync : Bool}
    (h : item ∈ items) : Holds (.withItems items body isAsync) item.context
  | vars {items : List WithItem} {item : WithItem} {vars : Expr} {body : List σ} {isAsync : Bool}
    (hi : item ∈ items) (h : item.vars = some vars) : Holds (.withItems items body isAsync) vars
  | functionDecorator {definition : FunctionDef σ} {e : Expr} (h : e ∈ definition.decorators) :
    Holds (.functionDef definition) e
  | functionDefault {definition : FunctionDef σ} {e : Expr} (h : definition.params.Defaults e) :
    Holds (.functionDef definition) e
  | classDecorator {definition : ClassDef σ} {e : Expr} (h : e ∈ definition.decorators) :
    Holds (.classDef definition) e
  | base {definition : ClassDef σ} {e : Expr} (h : e ∈ definition.bases) :
    Holds (.classDef definition) e
  | deleted {targets : List Expr} {e : Expr} (h : e ∈ targets) : Holds (.delete targets) e
  | asserted {test : Expr} {msg : Option Expr} : Holds (.assert test msg) test
  | message {test msg : Expr} : Holds (.assert test (some msg)) msg
  | raised {exc : Expr} {cause : Option Expr} : Holds (.raise (some exc) cause) exc
  | cause {cause : Expr} {exc : Option Expr} : Holds (.raise exc (some cause)) cause

/-- The fields of a definition that hold expressions which are none of its statement. -/
inductive Hides : StmtForm σ → Expr → Prop where
  | annotated {definition : FunctionDef σ} {e : Expr} (h : definition.params.Annotates e) :
    Hides (.functionDef definition) e
  | returns {definition : FunctionDef σ} {e : Expr} (h : definition.returns = some e) :
    Hides (.functionDef definition) e
  | keyword {definition : ClassDef σ} {k : Keyword Expr} (h : k ∈ definition.keywords) :
    Hides (.classDef definition) k.value

/-- The fields of a statement that hold statements. -/
inductive Nests : StmtForm σ → σ → Prop where
  | ifBody {test : Expr} {body orelse : List σ} {s : σ} (h : s ∈ body) :
    Nests (.ifElse test body orelse) s
  | ifElse {test : Expr} {body orelse : List σ} {s : σ} (h : s ∈ orelse) :
    Nests (.ifElse test body orelse) s
  | whileBody {test : Expr} {body orelse : List σ} {s : σ} (h : s ∈ body) :
    Nests (.whileLoop test body orelse) s
  | whileElse {test : Expr} {body orelse : List σ} {s : σ} (h : s ∈ orelse) :
    Nests (.whileLoop test body orelse) s
  | forBody {target iter : Expr} {body orelse : List σ} {isAsync : Bool} {s : σ} (h : s ∈ body) :
    Nests (.forLoop target iter body orelse isAsync) s
  | forElse {target iter : Expr} {body orelse : List σ} {isAsync : Bool} {s : σ} (h : s ∈ orelse) :
    Nests (.forLoop target iter body orelse isAsync) s
  | tryBody {body orelse finalbody : List σ} {handlers : List (Handler σ)} {s : σ} (h : s ∈ body) :
    Nests (.tryExcept body handlers orelse finalbody) s
  | handlerBody {body orelse finalbody : List σ} {handlers : List (Handler σ)} {handler : Handler σ}
    {s : σ} (hh : handler ∈ handlers) (h : s ∈ handler.body) :
    Nests (.tryExcept body handlers orelse finalbody) s
  | tryElse {body orelse finalbody : List σ} {handlers : List (Handler σ)} {s : σ}
    (h : s ∈ orelse) : Nests (.tryExcept body handlers orelse finalbody) s
  | finalBody {body orelse finalbody : List σ} {handlers : List (Handler σ)} {s : σ}
    (h : s ∈ finalbody) : Nests (.tryExcept body handlers orelse finalbody) s
  | withBody {items : List WithItem} {body : List σ} {isAsync : Bool} {s : σ} (h : s ∈ body) :
    Nests (.withItems items body isAsync) s
  | functionBody {definition : FunctionDef σ} {s : σ} (h : s ∈ definition.body) :
    Nests (.functionDef definition) s
  | classBody {definition : ClassDef σ} {s : σ} (h : s ∈ definition.body) :
    Nests (.classDef definition) s

end StmtForm

theorem Clause.mem_parts_iff {c : Clause ε} {e : ε} : e ∈ c.parts ↔ c.Holds e := by
  rw [parts, List.mem_cons, List.mem_cons]
  refine ⟨fun h => ?_, fun h => ?_⟩
  · rcases h with rfl | rfl | h
    · exact .target
    · exact .iter
    · exact .condition h
  · cases h with
    | target => exact .inl rfl
    | iter => exact .inr (.inl rfl)
    | condition h => exact .inr (.inr h)

theorem mem_clauses_iff {clauses : List (Clause ε)} {e : ε} :
    e ∈ clauses.flatMap Clause.parts ↔ ∃ c ∈ clauses, c.Holds e := by
  simp only [List.mem_flatMap, Clause.mem_parts_iff]

theorem Params.mem_defaultExprs_iff {ps : Params ε} {e : ε} :
    e ∈ ps.defaultExprs ↔ ps.Defaults e := by
  have hkeyword : e ∈ ps.kwDefaults.filterMap id ↔ some e ∈ ps.kwDefaults := by simp
  rw [defaultExprs, List.mem_append, hkeyword]
  refine ⟨fun h => h.elim .positional .keywordOnly, fun h => ?_⟩
  cases h with
  | positional h => exact .inl h
  | keywordOnly h => exact .inr h

theorem ExprForm.mem_children_iff {f : ExprForm ε} {e : ε} : e ∈ f.children ↔ f.Holds e := by
  refine ⟨fun h => ?_, fun h => ?_⟩
  · cases f <;> simp only [children, List.mem_cons, List.mem_append, List.not_mem_nil, or_false,
      mem_clauses_iff, Params.mem_defaultExprs_iff, Option.mem_toList] at h
    case list => exact .list h
    case tuple => exact .tuple h
    case set => exact .set h
    case dict items =>
      obtain ⟨⟨key, value⟩, hi, h⟩ := List.mem_flatMap.1 h
      rcases List.mem_append.1 h with h | h
      · cases Option.mem_toList.1 h
        exact .key hi
      · cases List.mem_singleton.1 h
        exact .value hi
    case listComp =>
      rcases h with rfl | ⟨c, hc, h⟩
      · exact .listElt
      · exact .listClause hc h
    case setComp =>
      rcases h with rfl | ⟨c, hc, h⟩
      · exact .setElt
      · exact .setClause hc h
    case generator =>
      rcases h with rfl | ⟨c, hc, h⟩
      · exact .generatorElt
      · exact .generatorClause hc h
    case dictComp =>
      rcases h with rfl | rfl | ⟨c, hc, h⟩
      · exact .dictKey
      · exact .dictValue
      · exact .dictClause hc h
    case lambda =>
      rcases h with h | rfl
      · exact .lambdaDefault h
      · exact .lambdaBody
    case ifExp =>
      rcases h with rfl | rfl | rfl
      · exact .test
      · exact .body
      · exact .orelse
    case boolOp => exact .connected h
    case binOp =>
      rcases h with rfl | rfl
      · exact .left
      · exact .right
    case unaryOp => exact h ▸ .operand
    case compare =>
      rcases h with rfl | h
      · exact .compared
      · obtain ⟨⟨op, value⟩, hr, rfl⟩ := List.mem_map.1 h
        exact .comparand hr
    case call =>
      rcases h with (rfl | h) | h
      · exact .func
      · exact .arg h
      · obtain ⟨k, hk, rfl⟩ := List.mem_map.1 h
        exact .keyword hk
    case member => exact h ▸ .owner
    case subscript =>
      rcases h with rfl | rfl
      · exact .container
      · exact .index
    case slice =>
      rcases h with (rfl | rfl) | rfl
      · exact .lower
      · exact .upper
      · exact .step
    case starred => exact h ▸ .starred
    case await => exact h ▸ .awaited
    case yield => exact h ▸ .yielded
    case yieldFrom => exact h ▸ .delegated
    case named =>
      rcases h with rfl | rfl
      · exact .target
      · exact .named
  · cases h
    case list h | tuple h | set h | connected h => exact h
    case key h | value h =>
      refine List.mem_flatMap.2 ⟨_, h, ?_⟩
      simp
    case listClause hc h | setClause hc h | generatorClause hc h =>
      exact List.mem_cons_of_mem _ (mem_clauses_iff.2 ⟨_, hc, h⟩)
    case dictClause hc h =>
      exact List.mem_cons_of_mem _ (List.mem_cons_of_mem _ (mem_clauses_iff.2 ⟨_, hc, h⟩))
    case lambdaDefault h => exact List.mem_append_left _ (Params.mem_defaultExprs_iff.2 h)
    case comparand h => exact List.mem_cons_of_mem _ (List.mem_map_of_mem h)
    case arg h => exact List.mem_append_left _ (List.mem_cons_of_mem _ h)
    case keyword h => exact List.mem_append_right _ (List.mem_map_of_mem h)
    all_goals simp [children]

theorem StmtForm.mem_expressions_iff {f : StmtForm σ} {e : Expr} :
    e ∈ f.expressions ↔ f.Holds e := by
  refine ⟨fun h => ?_, fun h => ?_⟩
  · cases f <;> simp only [expressions, List.mem_cons, List.mem_append, List.not_mem_nil, or_false,
      Params.mem_defaultExprs_iff, Option.mem_toList] at h
    case expr => exact h ▸ .value
    case assign =>
      rcases h with h | rfl
      · exact .target h
      · exact .assigned
    case ascribe =>
      rcases h with rfl | rfl | rfl
      · exact .ascribed
      · exact .ascription
      · exact .ascribedValue
    case augAssign =>
      rcases h with rfl | rfl
      · exact .augmented
      · exact .augment
    case ret => exact h ▸ .result
    case ifElse => exact h ▸ .ifTest
    case whileLoop => exact h ▸ .whileTest
    case forLoop =>
      rcases h with rfl | rfl
      · exact .forTarget
      · exact .forIter
    case tryExcept =>
      obtain ⟨handler, hh, h⟩ := List.mem_filterMap.1 h
      exact .handlerType hh h
    case withItems =>
      obtain ⟨item, hi, h⟩ := List.mem_flatMap.1 h
      rcases List.mem_cons.1 h with rfl | h
      · exact .context hi
      · exact .vars hi (Option.mem_toList.1 h)
    case functionDef => exact h.elim .functionDecorator .functionDefault
    case classDef => exact h.elim .classDecorator .base
    case delete => exact .deleted h
    case assert =>
      rcases h with rfl | rfl
      · exact .asserted
      · exact .message
    case raise =>
      rcases h with rfl | rfl
      · exact .raised
      · exact .cause
  · cases h
    case target h => exact List.mem_append_left _ h
    case handlerType hh h => exact List.mem_filterMap.2 ⟨_, hh, h⟩
    case context h => exact List.mem_flatMap.2 ⟨_, h, List.mem_cons_self⟩
    case vars hi h =>
      exact List.mem_flatMap.2 ⟨_, hi, List.mem_cons_of_mem _ (Option.mem_toList.2 h)⟩
    case functionDecorator h | classDecorator h => exact List.mem_append_left _ h
    case functionDefault h => exact List.mem_append_right _ (Params.mem_defaultExprs_iff.2 h)
    case base h => exact List.mem_append_right _ h
    case deleted h => exact h
    all_goals simp [expressions]

theorem StmtForm.mem_substatements_iff {f : StmtForm σ} {s : σ} :
    ((∃ b ∈ f.blocks, s ∈ b) ∨ s ∈ f.definitionBody) ↔ f.Nests s := by
  refine ⟨fun h => ?_, fun h => ?_⟩
  · cases f <;> simp only [blocks, definitionBody, List.mem_cons, List.mem_append, List.not_mem_nil,
      or_false, false_or, List.mem_map, or_and_right, exists_or, exists_eq_left, false_and,
      exists_false] at h
    case ifElse => exact h.elim .ifBody .ifElse
    case whileLoop => exact h.elim .whileBody .whileElse
    case forLoop => exact h.elim .forBody .forElse
    case tryExcept =>
      rcases h with (h | ⟨b, ⟨handler, hh, rfl⟩, h⟩) | h | h
      · exact .tryBody h
      · exact .handlerBody hh h
      · exact .tryElse h
      · exact .finalBody h
    case withItems => exact .withBody h
    case functionDef => exact .functionBody h
    case classDef => exact .classBody h
  · cases h
    case ifBody h | whileBody h | forBody h | withBody h | tryBody h =>
      exact .inl ⟨_, List.mem_cons_self, h⟩
    case ifElse h | whileElse h | forElse h =>
      exact .inl ⟨_, List.mem_cons_of_mem _ List.mem_cons_self, h⟩
    case handlerBody hh h =>
      exact .inl ⟨_, List.mem_append_left _ (List.mem_cons_of_mem _ (List.mem_map_of_mem hh)), h⟩
    case tryElse h | finalBody h => exact .inl ⟨_, by simp [blocks], h⟩
    case functionBody h | classBody h => exact .inr h

end Credence

import TypeScribe.Syntax.KindSet
/-!
# Node classes

Queries ask for nodes by the name of a node class. A class is either one
node kind, under the kind's own name, or a category of several, such as
`Stmt` or `ClassLike`. Kinds of tokens are no node classes. A node belongs
to every class that has its kind, so a class declaration is a `Class`, a
`ClassLike`, a `Stmt` and a `Node`.
-/

namespace TypeScribe

namespace Syntax

/-- The categories that group several node kinds. -/
inductive Category
  | node
  | stmt
  | expr
  | classLike
  | functionLike
  | callLike
  | complexType
  | typeHint
deriving DecidableEq, Repr

namespace Category

/-- All categories. -/
def all : List Category :=
  [node, stmt, expr, classLike, functionLike, callLike, complexType, typeHint]

/-- The name a category is asked for by. -/
def name : Category → String
  | node => "Node"
  | stmt => "Stmt"
  | expr => "Expr"
  | classLike => "ClassLike"
  | functionLike => "FunctionLike"
  | callLike => "CallLike"
  | complexType => "ComplexType"
  | typeHint => "TypeAnnotation"

/-- The kinds a category groups. -/
def kinds : Category → KindSet
  | node => .nodes
  | stmt => .statements
  | expr => .expressions
  | classLike => .classLikes
  | functionLike => .functionLikes
  | callLike => .callLikes
  | complexType => .complexTypes
  | typeHint => .typeHints

theorem mem_all (c : Category) : c ∈ all := by
  cases c <;> decide

end Category

/-- A named class of nodes. -/
inductive NodeClass
  /-- The nodes of one kind. -/
  | ofKind (k : Kind) (isNode : k.isNode = true)
  /-- The nodes of a category. -/
  | ofCategory (c : Category)
deriving DecidableEq, Repr

namespace NodeClass

/-- The class of exactly one kind; a token kind has none. -/
def ofKind? (k : Kind) : Option NodeClass :=
  if h : k.isNode = true then some (.ofKind k h) else none

/-- The class of a given name. -/
def ofName? (name : String) : Option NodeClass :=
  match Kind.all.find? fun k => k.isNode && k.label = name with
  | some k => ofKind? k
  | none => (Category.all.find? (·.name = name)).map .ofCategory

/-- The class's name. -/
def name : NodeClass → String
  | ofKind k _ => k.label
  | ofCategory c => c.name

/-- The kinds of the class. -/
def kinds : NodeClass → KindSet
  | ofKind k _ => .single k
  | ofCategory c => c.kinds

/-- Whether nodes of a kind belong to the class. -/
def contains (cls : NodeClass) (k : Kind) : Bool := cls.kinds.contains k

/-- Every kind belongs to its own class and to no other kind's. -/
theorem contains_ofKind {k : Kind} (h : k.isNode = true) (l : Kind) :
    (ofKind k h).contains l = decide (l = k) :=
  KindSet.contains_single k l

/-- **A class has node kinds only.** -/
theorem isNode_of_contains {cls : NodeClass} {k : Kind} (h : cls.contains k = true) :
    k.isNode = true := by
  cases cls with
  | ofKind l hl =>
    rw [contains_ofKind, decide_eq_true_iff] at h
    exact h ▸ hl
  | ofCategory c =>
    have key : ∀ c ∈ Category.all, ∀ k ∈ Kind.all, c.kinds.contains k = true → k.isNode = true := by
      decide
    exact key c c.mem_all k k.mem_all h

/-- **A class is found by its own name.** -/
theorem ofName?_name (cls : NodeClass) : ofName? cls.name = some cls := by
  cases cls with
  | ofKind k h =>
    have key : ∀ k ∈ Kind.all, k.isNode = true → ofName? k.label = ofKind? k := by decide
    exact (key k k.mem_all h).trans (dif_pos h)
  | ofCategory c =>
    have key : ∀ c ∈ Category.all, ofName? c.name = some (.ofCategory c) := by decide
    exact key c c.mem_all

end NodeClass

/-- The name of a node kind; token kinds have none. -/
def Kind.nodeName? (k : Kind) : Option String :=
  (NodeClass.ofKind? k).map NodeClass.name

end Syntax

end TypeScribe

import TypeScribe.Syntax.Naming
import TypeScribe.Syntax.Statement
/-!
# What a node says

The view of a node names the parts that matter for its kind: the
statements of a block, the members of a class, the two sides of an
assignment. A tree need not have them all, so most parts are optional. A
node whose kind has no named parts has the view `other`.
-/

namespace TypeScribe

namespace Syntax

/-- A node's named parts. -/
inductive View
  /-- A root or a block, with its statements. -/
  | statementList (statements : List Node)
  /-- A class with its name, its parent's name and its members. -/
  | classDecl (name parent : Option String) (members : List Node)
  /-- An interface or a trait with its name. -/
  | otherClassLike (name : Option String)
  /-- An expression used as a statement. -/
  | exprStmt (expr : Option Node)
  /-- An assignment with its two sides. -/
  | assign (target value : Option Node)
  /-- A variable with the text of its token, and its name. -/
  | var (token name : Option String)
  /-- A name. -/
  | name (text : String)
  /-- Nothing more is said. -/
  | other
deriving Repr

namespace Node

/-- The left side of an assignment: its first expression. -/
def target? (n : Node) : Option Node := n.expressions[0]?

/-- The right side of an assignment: its second expression. -/
def value? (n : Node) : Option Node := n.expressions[1]?

/-- The node's named parts. -/
def view (n : Node) : View :=
  match n.kind with
  | .root | .block => .statementList n.statements
  | .classDecl =>
    .classDecl (Tree.nameAfter? .kwClass n.children) (Tree.nameAfter? .kwExtends n.children)
      n.statements
  | .interfaceDecl | .traitDecl => .otherClassLike (n.children.findSome? Tree.asName?)
  | .exprStmt => .exprStmt n.expressions[0]?
  | .assign => .assign n.target? n.value?
  | .var => .var (Tree.firstToken? .varName n.children) (Tree.variableName? n.children)
  | .name => .name (Tree.spelledName n.children)
  | _ => .other

/-- Whether the node declares a class, an interface or a trait. -/
def isClassLike (n : Node) : Bool := KindSet.classLikes.contains n.kind

/-- Whether the node declares a class without a name; an interface or a
trait is never anonymous. -/
def isAnonymous (n : Node) : Bool :=
  n.kind == .classDecl && (Tree.nameAfter? .kwClass n.children).isNone

/-- The left side of the node, if it is an assignment. -/
def assignedTo? (n : Node) : Option Node :=
  match n.view with
  | .assign target _ => target
  | _ => none

/-- An anonymous node is a class declaration without a name. -/
theorem isAnonymous_iff {n : Node} :
    n.isAnonymous = true ↔ ∃ parent members, n.view = .classDecl none parent members := by
  obtain ⟨k, cs, path⟩ := n
  cases k <;> simp [isAnonymous, view]

end Node

end Syntax

end TypeScribe

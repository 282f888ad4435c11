import TypeScribe.Syntax.Comparison
import TypeScribe.Syntax.NodeClass
import TypeScribe.Syntax.View
/-!
# Finding nodes

The questions a change to the code asks about its surroundings: which node
of some class encloses this one, which nodes of a class lie in a scope,
where a variable was assigned before. A `Finder` carries the two notions
these questions leave open, when a node has a name and when two nodes are
the same code.

A scope is a list of nodes. They are searched in the order of the list,
each with all that lies in it and before the next one, so a node that lies
in two of them is found twice.

Node classes are asked for by name. A name that is no class's is a mistake
of the caller and is refused, whatever the scope holds.
-/

namespace TypeScribe

namespace Syntax

/-- The questions that take names of node classes. -/
inductive Query
  | firstAncestorOfClasses
  | firstAncestorOfClass
  | allOfClass
  | firstOfClass
  | lastOfClass
  | hasDescendantOfClasses
  | descendantNamed
  | hasDescendantNamed
  | firstPreviousOfClasses
deriving DecidableEq, Repr

/-- A question's name in messages. -/
def Query.name : Query → String
  | firstAncestorOfClasses => "find_first_ancestor_of_types"
  | firstAncestorOfClass => "find_first_ancestor_of_type"
  | allOfClass => "find_all_of_type"
  | firstOfClass => "find_first_of_type"
  | lastOfClass => "find_last_of_type"
  | hasDescendantOfClasses => "has_descendant_of_types"
  | descendantNamed => "find_descendant_named"
  | hasDescendantNamed => "has_descendant_named"
  | firstPreviousOfClasses => "find_first_previous_of_types"

/-- A name that was given for a node class and is none. -/
structure UnknownClass where
  /-- The question that was asked. -/
  query : Query
  /-- The name that was given. -/
  given : String
deriving DecidableEq, Repr

namespace UnknownClass

/-- The place of the class among a question's arguments, the node or scope
being the first. -/
def position (_ : UnknownClass) : Nat := 2

/-- What the caller is told. -/
def message (e : UnknownClass) : String :=
  "kind given to `" ++ e.query.name ++ "()` at argument " ++ toString e.position ++
    " must be a node class, `" ++ e.given ++ "` given"

end UnknownClass

namespace Query

/-- The node class of a name given to a question. -/
def class? (q : Query) (name : String) : Except UnknownClass NodeClass :=
  match NodeClass.ofName? name with
  | some cls => .ok cls
  | none => .error ⟨q, name⟩

/-- The node classes of several names; the first that is none is refused. -/
def classes? (q : Query) : List String → Except UnknownClass (List NodeClass)
  | [] => .ok []
  | name :: names => do
    let cls ← q.class? name
    let more ← q.classes? names
    return cls :: more

end Query

namespace Node

/-- Whether the node belongs to one of the classes. -/
def isAnyOf (n : Node) (classes : List NodeClass) : Bool :=
  classes.any (·.contains n.kind)

/-- The first node with the property in the given statement, or else in
the nearest statement before it that has one. -/
def findBackwards? (p : Node → Bool) (s : Node) : Option Node :=
  match s.descendants.find? p with
  | some found => some found
  | none =>
    match _h : s.previousStatement? with
    | none => none
    | some earlier => findBackwards? p earlier
termination_by s.earlierSiblings.length
decreasing_by exact length_earlierSiblings_lt _h

end Node

/-- All nodes of a scope, in the order they are searched. -/
def allNodes (scope : List Node) : List Node := scope.flatMap Node.descendants

/-- What a search takes a name and the same code to be. -/
structure Finder where
  /-- Whether a node has a name. -/
  isNamed : Node → String → Bool
  /-- Whether two nodes are the same code. -/
  isSame : Node → Node → Bool

namespace Finder

/-- Names and code as the language has them: names up to root and case
where the language ignores these, code up to trivia. -/
def standard : Finder where
  isNamed n name := n.tree.answersTo name
  isSame a b := a.tree.sameCode b.tree

/-- Names and code character by character. -/
def literal : Finder where
  isNamed n name := n.tree.name? == some name
  isSame a b := a.tree.sameText b.tree

instance : Inhabited Finder := ⟨standard⟩

/-! ## Ancestors -/

/-- The nearest ancestor of one of the classes, the node itself left out. -/
def firstAncestorOfClasses? (n : Node) (names : List String) :
    Except UnknownClass (Option Node) := do
  let classes ← Query.firstAncestorOfClasses.classes? names
  return n.ancestors.find? (·.isAnyOf classes)

/-- The nearest ancestor of a class, the node itself left out. -/
def firstAncestorOfClass? (n : Node) (name : String) : Except UnknownClass (Option Node) := do
  let cls ← Query.firstAncestorOfClass.class? name
  return n.ancestors.find? (cls.contains ·.kind)

/-! ## Descendants -/

/-- The nodes of a scope with a property. -/
def all (scope : List Node) (p : Node → Bool) : List Node := (allNodes scope).filter p

/-- The first node of a scope with a property. -/
def first? (scope : List Node) (p : Node → Bool) : Option Node := (allNodes scope).find? p

/-- The nodes of a class. -/
def allOfClass (scope : List Node) (name : String) : Except UnknownClass (List Node) := do
  let cls ← Query.allOfClass.class? name
  return all scope (cls.contains ·.kind)

/-- The first node of a class. -/
def firstOfClass? (scope : List Node) (name : String) : Except UnknownClass (Option Node) := do
  let cls ← Query.firstOfClass.class? name
  return first? scope (cls.contains ·.kind)

/-- The last node of a class, in the order of the search. -/
def lastOfClass? (scope : List Node) (name : String) : Except UnknownClass (Option Node) := do
  let cls ← Query.lastOfClass.class? name
  return (all scope (cls.contains ·.kind)).getLast?

/-- Whether there is a node of one of the classes. -/
def hasDescendantOfClasses (scope : List Node) (names : List String) :
    Except UnknownClass Bool := do
  let classes ← Query.hasDescendantOfClasses.classes? names
  return (allNodes scope).any (·.isAnyOf classes)

/-- The declarations of classes, interfaces and traits that have a name. -/
def classLikes (scope : List Node) : List Node :=
  ((allNodes scope).filter Node.isClassLike).filter (!·.isAnonymous)

/-- The first declaration of a class, interface or trait that has a name. -/
def firstNamedClassLike? (scope : List Node) : Option Node :=
  (allNodes scope).find? fun n => n.isClassLike && !n.isAnonymous

/-! ## Names -/

/-- The first node of a class with a name. -/
def descendantNamed? (f : Finder) (scope : List Node) (cls name : String) :
    Except UnknownClass (Option Node) := do
  let cls ← Query.descendantNamed.class? cls
  return first? scope fun n => cls.contains n.kind && f.isNamed n name

/-- Whether there is a node of a class with a name. -/
def hasDescendantNamed (f : Finder) (scope : List Node) (cls name : String) :
    Except UnknownClass Bool := do
  let cls ← Query.hasDescendantNamed.class? cls
  return (allNodes scope).any fun n => cls.contains n.kind && f.isNamed n name

/-- The first variable with a name, given without its `$`. -/
def variableNamed? (f : Finder) (scope : List Node) (name : String) : Option Node :=
  first? scope fun n => n.kind == .var && f.isNamed n name

/-- Whether there is a variable with a name. -/
def hasVariableNamed (f : Finder) (scope : List Node) (name : String) : Bool :=
  (f.variableNamed? scope name).isSome

/-! ## Backwards -/

/-- The first node with a property in the statement the node lies in, or
else in the nearest statement before that one, in the same list, which has
one. -/
def firstPrevious? (n : Node) (p : Node → Bool) : Option Node :=
  n.enclosingStatement?.bind (Node.findBackwards? p)

/-- The same for the nodes of some classes. -/
def firstPreviousOfClasses? (n : Node) (names : List String) :
    Except UnknownClass (Option Node) := do
  let classes ← Query.firstPreviousOfClasses.classes? names
  return firstPrevious? n (·.isAnyOf classes)

/-- The nearest assignment to an expression at or before its statement. -/
def previousAssignmentTo? (f : Finder) (expr : Node) : Option Node :=
  firstPrevious? expr fun n => n.assignedTo?.any (f.isSame · expr)

end Finder

/-! ## Conditions on a node -/

/-- A condition on a node; of its parts those that are given must hold. -/
structure Condition where
  /-- The node is of this kind. -/
  kind : Option Kind
  /-- The node belongs to this class. -/
  cls : Option NodeClass
  /-- The node's code is this. -/
  text : Option String
  /-- The node carries exactly this name. -/
  name : Option String

/-- Whether a node meets the condition. -/
def Condition.holds (c : Condition) (n : Node) : Bool :=
  c.kind.all (n.kind == ·) && c.cls.all (·.contains n.kind) && c.text.all (n.tree.text == ·) &&
    c.name.all (n.tree.name? == some ·)

end Syntax

end TypeScribe

import TypeScribe.Syntax.KindSet
import TypeScribe.Syntax.Node
/-!
# Statements

Statements stand in lists: the statement children of one node. From a node
one gets to the statement it lies in, and from a statement to the one
before and the one after it in its list. The walk along a list never
leaves it.
-/

namespace TypeScribe

namespace Syntax

namespace Node

/-- Whether the node is a statement. -/
def isStatement (n : Node) : Bool := n.kind.isStatement

/-- Whether the node is an expression. -/
def isExpr (n : Node) : Bool := n.kind.isExpr

/-- The statements directly inside the node. -/
def statements (n : Node) : List Node := n.childNodes.filter isStatement

/-- The expressions directly inside the node. -/
def expressions (n : Node) : List Node := n.childNodes.filter isExpr

/-- The nearest statement the node lies in, or the node itself. -/
def enclosingStatement? (n : Node) : Option Node := n.selfAndAncestors.find? isStatement

/-- The statement before the node in its list. -/
def previousStatement? (n : Node) : Option Node := n.earlierSiblings.find? isStatement

/-- The statement after the node in its list. -/
def nextStatement? (n : Node) : Option Node := n.laterSiblings.find? isStatement

/-! ## The walk back ends -/

/-- The further a sibling, the fewer stand before it. -/
theorem length_earlierSiblings_of_mem_leftwards {k : Kind} {path : List Crumb}
    {after before : List Tree} {m : Node} (h : m ∈ leftwards k path after before) :
    m.earlierSiblings.length < (leftwards k path after before).length := by
  induction before generalizing after with
  | nil => cases h
  | cons t before ih =>
    cases t with
    | token l s =>
      rw [leftwards] at h ⊢
      exact ih h
    | node l cs =>
      rw [leftwards, List.mem_cons] at h
      rw [leftwards, List.length_cons]
      rcases h with rfl | h
      · simp [earlierSiblings, tree]
      · exact Nat.lt_succ_of_lt (ih h)

/-- **Before a previous statement there are fewer siblings.** -/
theorem length_earlierSiblings_lt {n m : Node} (h : n.previousStatement? = some m) :
    m.earlierSiblings.length < n.earlierSiblings.length := by
  have hmem := List.mem_of_find?_eq_some h
  obtain ⟨k, cs, path⟩ := n
  cases path with
  | nil => cases hmem
  | cons c path => exact length_earlierSiblings_of_mem_leftwards hmem

/-- The statements before the node in its list, nearest first. -/
def precedingStatements (n : Node) : List Node := n.earlierSiblings.filter isStatement

theorem head?_precedingStatements (n : Node) :
    n.precedingStatements.head? = n.previousStatement? :=
  List.head?_filter ..

end Node

end Syntax

end TypeScribe

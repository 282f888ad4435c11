import TypeScribe.Syntax.Tree
/-!
# Nodes in their place

A `Node` is a node of a syntax tree together with everything around it:
its kind and children, and for each node it lies in what stands before and
after it there. So two nodes of one tree that look alike are different
nodes, and a node knows its ancestors, its siblings and its position
without the tree being passed along. There are no other values: every
`Node` is a node of the tree it has at its root.

Children and siblings are nodes here; tokens are seen only through the
children of the underlying tree.
-/

namespace TypeScribe

namespace Syntax

/-- One step up: the node above, with what it holds on either side of the
place the step came from. -/
structure Crumb where
  /-- The kind of the node above. -/
  kind : Kind
  /-- The children before the place, nearest first. -/
  before : List Tree
  /-- The children after the place, nearest first. -/
  after : List Tree
deriving Repr

/-- A node in its place. -/
structure Node where
  /-- The node's kind. -/
  kind : Kind
  /-- The node's children, tokens among them. -/
  children : List Tree
  /-- The way up to the root, nearest first. -/
  path : List Crumb
deriving Repr

namespace Node

instance : Inhabited Node := ⟨⟨.error, [], []⟩⟩

/-- The node without its surroundings. -/
def tree (n : Node) : Tree := .node n.kind n.children

/-- The root of a tree. A token has none, and neither has a tree that
cannot be read. -/
def ofTree? (t : Tree) : Option Node :=
  match t with
  | .token _ _ => none
  | .node k cs => if t.isReadable then some ⟨k, cs, []⟩ else none

/-! ## Upwards -/

/-- The node above a tree, put back together around it. -/
def above (t : Tree) (c : Crumb) (path : List Crumb) : Node :=
  ⟨c.kind, c.before.reverseAux (t :: c.after), path⟩

/-- The nodes above a tree, nearest first. -/
def allAbove (t : Tree) : List Crumb → List Node
  | [] => []
  | c :: path => above t c path :: allAbove (above t c path).tree path

/-- The node the node is a child of; the root has none. -/
def parent? (n : Node) : Option Node :=
  match n.path with
  | [] => none
  | c :: path => some (above n.tree c path)

/-- The nodes the node lies in, nearest first. -/
def ancestors (n : Node) : List Node := allAbove n.tree n.path

/-- The node and the nodes it lies in, nearest first. -/
def selfAndAncestors (n : Node) : List Node := n :: n.ancestors

/-! ## Sideways and down -/

/-- The nodes among `after`, from left to right, below a node of kind `k`
at `path` where `before` precedes them, nearest first. -/
def rightwards (k : Kind) (path : List Crumb) (before : List Tree) : List Tree → List Node
  | [] => []
  | .token l s :: after => rightwards k path (.token l s :: before) after
  | .node l cs :: after =>
    ⟨l, cs, ⟨k, before, after⟩ :: path⟩ :: rightwards k path (.node l cs :: before) after

/-- The nodes among `before`, nearest first, below a node of kind `k` at
`path` where `after` follows them. -/
def leftwards (k : Kind) (path : List Crumb) (after : List Tree) : List Tree → List Node
  | [] => []
  | .token l s :: before => leftwards k path (.token l s :: after) before
  | .node l cs :: before =>
    ⟨l, cs, ⟨k, before, after⟩ :: path⟩ :: leftwards k path (.node l cs :: after) before

/-- The nodes directly inside the node. -/
def childNodes (n : Node) : List Node := rightwards n.kind n.path [] n.children

/-- The nodes after the node in the same parent, nearest first. -/
def laterSiblings (n : Node) : List Node :=
  match n.path with
  | [] => []
  | c :: path => rightwards c.kind path (n.tree :: c.before) c.after

/-- The nodes before the node in the same parent, nearest first. -/
def earlierSiblings (n : Node) : List Node :=
  match n.path with
  | [] => []
  | c :: path => leftwards c.kind path (n.tree :: c.after) c.before

mutual

/-- The nodes of a tree standing at `path`, each before the nodes inside
it. -/
def nodesOf (path : List Crumb) : Tree → List Node
  | .token _ _ => []
  | .node k cs => ⟨k, cs, path⟩ :: nodesAmong k path [] cs

/-- The nodes of the trees that follow `before` below a node of kind `k`
at `path`. -/
def nodesAmong (k : Kind) (path : List Crumb) (before : List Tree) : List Tree → List Node
  | [] => []
  | t :: after => nodesOf (⟨k, before, after⟩ :: path) t ++ nodesAmong k path (t :: before) after

end

/-- The node and all nodes inside it, each before the nodes inside it. -/
def descendants (n : Node) : List Node := nodesOf n.path n.tree

/-! ## Position -/

/-- How many nodes of the tree come before this one: the number of the
node in the order of `descendants` of the root. -/
def position (n : Node) : Nat :=
  n.path.foldr (fun c count => Tree.nodeCountOfAll c.before + 1 + count) 0

/-- How many children, tokens included, precede each node on the way down
from the root. Different nodes of a tree have different addresses. -/
def address (n : Node) : List Nat :=
  (n.path.map fun c => c.before.length).reverse

/-- Where the node's code begins, in UTF-8 from the start of the tree. -/
def start (n : Node) : Nat :=
  (n.path.flatMap Crumb.before).foldr (fun t length => t.byteLength + length) 0

/-- Where the node's code ends. -/
def stop (n : Node) : Nat := n.start + n.tree.byteLength

/-! ## Small laws -/

/-- The root of a tree has the tree below it and nothing above it. -/
theorem of_ofTree? {t : Tree} {n : Node} (h : ofTree? t = some n) : n.tree = t ∧ n.path = [] := by
  cases t with
  | token k s => cases h
  | node k cs =>
    simp only [ofTree?, Option.ite_none_right_eq_some, Option.some.injEq] at h
    obtain ⟨-, rfl⟩ := h
    exact ⟨rfl, rfl⟩

@[simp] theorem tree_above (t : Tree) (c : Crumb) (path : List Crumb) :
    (above t c path).tree = .node c.kind (c.before.reverse ++ t :: c.after) := by
  simp [above, tree, List.reverseAux_eq]

/-- The nearest ancestor is the parent. -/
theorem head?_ancestors (n : Node) : n.ancestors.head? = n.parent? := by
  unfold ancestors parent?
  cases n.path <;> rfl

/-- The ancestors of the parent are the remaining ancestors. -/
theorem ancestors_of_parent? {n p : Node} (h : n.parent? = some p) :
    n.ancestors = p :: p.ancestors := by
  obtain ⟨k, cs, path⟩ := n
  cases path with
  | nil => cases h
  | cons c path =>
    cases h
    rfl

/-- A node is its own first descendant. -/
theorem head?_descendants (n : Node) : n.descendants.head? = some n := by
  obtain ⟨k, cs, path⟩ := n
  simp [descendants, tree, nodesOf]

/-- The nodes among trees in a row, child by child. -/
theorem nodesAmong_eq_flatMap (k : Kind) (path : List Crumb) (before after : List Tree) :
    nodesAmong k path before after = (rightwards k path before after).flatMap descendants := by
  induction after generalizing before with
  | nil => simp [nodesAmong, rightwards]
  | cons t after ih =>
    cases t with
    | token l s => simp [nodesAmong, nodesOf, rightwards, ih]
    | node l cs => simp [nodesAmong, rightwards, ih, descendants, tree]

/-- **A node comes first, then its children's descendants in order.** -/
theorem descendants_eq (n : Node) :
    n.descendants = n :: n.childNodes.flatMap descendants := by
  obtain ⟨k, cs, path⟩ := n
  simp [descendants, tree, nodesOf, childNodes, nodesAmong_eq_flatMap]

/-- Every child has the node as its parent. -/
theorem parent?_of_mem_rightwards {k : Kind} {path : List Crumb} {before after : List Tree}
    {c : Node} (h : c ∈ rightwards k path before after) :
    c.parent? = some ⟨k, before.reverse ++ after, path⟩ := by
  induction after generalizing before with
  | nil => cases h
  | cons t after ih =>
    cases t with
    | token l s =>
      rw [rightwards] at h
      simpa using ih h
    | node l cs =>
      rw [rightwards, List.mem_cons] at h
      rcases h with rfl | h
      · simp [parent?, above, tree, List.reverseAux_eq]
      · simpa using ih h

/-- **A child's parent is the node.** -/
theorem parent?_of_mem_childNodes {n c : Node} (h : c ∈ n.childNodes) : c.parent? = some n := by
  simpa using parent?_of_mem_rightwards h

end Node

end Syntax

end TypeScribe

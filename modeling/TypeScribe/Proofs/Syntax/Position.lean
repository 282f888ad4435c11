import Mathlib.Data.List.Basic
import TypeScribe.Syntax.Statement
/-!
# The order of nodes

A node's position counts the nodes before it, and the walk through a tree
takes a node before the nodes inside it. So the positions along a walk are
consecutive numbers (`map_position_descendants`), and the position of a
node is its number in the walk through the whole tree. What lies in a node
has a position in the node's range, and the ranges of siblings stand in
the order of the siblings.
-/

namespace TypeScribe

namespace Syntax

namespace Node

variable {n m a p : Node} {k : Kind} {path : List Crumb} {before after : List Tree}

/-! ## Positions along a walk -/

/-- The position of a node whose way up to the root is given. -/
def positionAt (path : List Crumb) : Nat :=
  path.foldr (fun c count => Tree.nodeCountOfAll c.before + 1 + count) 0

theorem positionAt_cons (c : Crumb) (path : List Crumb) :
    positionAt (c :: path) = Tree.nodeCountOfAll c.before + 1 + positionAt path := rfl

/-- Children are numbered from the position after their parent's, and
after what stands before them. -/
theorem map_position_nodesAmong
    (hafter : ∀ t ∈ after, ∀ path, (nodesOf path t).map position =
      List.range' (positionAt path) t.nodeCount) :
    (nodesAmong k path before after).map position =
      List.range' (Tree.nodeCountOfAll before + 1 + positionAt path)
        (Tree.nodeCountOfAll after) := by
  induction after generalizing before with
  | nil => rfl
  | cons t after ih =>
    have hhead := hafter t (by simp) (⟨k, before, after⟩ :: path)
    have hrest : (nodesAmong k path (t :: before) after).map position = _ :=
      ih fun s hs => hafter s (by simp [hs])
    have hnext : Tree.nodeCountOfAll (t :: before) + 1 + positionAt path =
        Tree.nodeCountOfAll before + 1 + positionAt path + t.nodeCount := by
      rw [Tree.nodeCountOfAll]
      omega
    rw [nodesAmong, List.map_append, hhead, hrest, positionAt_cons, hnext, List.range'_append_1,
      Tree.nodeCountOfAll]

theorem map_position_nodesOf (t : Tree) (path : List Crumb) :
    (nodesOf path t).map position = List.range' (positionAt path) t.nodeCount := by
  induction t using Tree.induction generalizing path with
  | token k s => rfl
  | node k cs ih =>
    have hinside : (nodesAmong k path [] cs).map position = _ := map_position_nodesAmong ih
    have hfirst : Tree.nodeCountOfAll [] + 1 + positionAt path = positionAt path + 1 := by
      rw [Tree.nodeCountOfAll]
      omega
    rw [nodesOf, List.map_cons, hinside, hfirst, Tree.nodeCount, List.range'_succ]
    rfl

/-- **The positions along a walk are consecutive**, from the node's own
on. -/
theorem map_position_descendants (n : Node) :
    n.descendants.map position = List.range' n.position n.tree.nodeCount :=
  map_position_nodesOf n.tree n.path

/-- What lies in a node has a position in the node's range. -/
theorem position_of_mem_descendants (hm : m ∈ n.descendants) :
    n.position ≤ m.position ∧ m.position < n.position + n.tree.nodeCount := by
  have hmem : m.position ∈ n.descendants.map position := List.mem_map_of_mem hm
  rw [map_position_descendants] at hmem
  exact List.mem_range'_1.1 hmem

/-- A walk goes on in the order of positions. -/
theorem pairwise_position_descendants (n : Node) :
    n.descendants.Pairwise fun a b => a.position < b.position := by
  have hrange : (n.descendants.map position).Pairwise (· < ·) := by
    rw [map_position_descendants]
    exact List.pairwise_lt_range'
  exact List.pairwise_map.1 hrange

/-- Where a walk meets a node, as many positions have gone by. -/
theorem getElem?_descendants (hm : m ∈ n.descendants) :
    n.descendants[m.position - n.position]? = some m := by
  obtain ⟨i, hi⟩ := List.mem_iff_getElem?.1 hm
  have hlt : i < n.tree.nodeCount := by
    have hlength : n.descendants.length = n.tree.nodeCount := by
      rw [← List.length_map position, map_position_descendants, List.length_range']
    have := (List.getElem?_eq_some_iff.1 hi).1
    omega
  have hposition : (n.descendants.map position)[i]? = some m.position := by
    rw [List.getElem?_map, hi, Option.map_some]
  rw [map_position_descendants, List.getElem?_range' hlt, Option.some.injEq] at hposition
  have hindex : m.position - n.position = i := by omega
  rw [hindex, hi]

/-! ## Walks among children -/

/-- What lies in one of several trees is met among them. -/
theorem mem_nodesAmong_append {t : Tree} {skipped : List Tree}
    (hm : m ∈ nodesOf (⟨k, skipped.reverse ++ before, after⟩ :: path) t) :
    m ∈ nodesAmong k path before (skipped ++ t :: after) := by
  induction skipped generalizing before with
  | nil =>
    rw [List.nil_append, nodesAmong]
    exact List.mem_append_left _ hm
  | cons s skipped ih =>
    rw [List.cons_append, nodesAmong]
    refine List.mem_append_right _ (ih ?_)
    rwa [List.reverse_cons, List.append_assoc, List.singleton_append] at hm

/-! ## Siblings -/

/-- Children before a place, and then those from there on. -/
theorem rightwards_reverse_append (k : Kind) (path : List Crumb) (before after : List Tree) :
    rightwards k path [] (before.reverse ++ after) =
      (leftwards k path after before).reverse ++ rightwards k path before after := by
  induction before generalizing after with
  | nil => rfl
  | cons t before ih =>
    rw [List.reverse_cons, List.append_assoc, List.singleton_append, ih (t :: after)]
    cases t with
    | token l s => rfl
    | node l cs => simp [leftwards, rightwards]

/-- **A parent's children are the node's earlier siblings, the node and
its later siblings.** -/
theorem childNodes_of_parent? (hp : n.parent? = some p) :
    p.childNodes = n.earlierSiblings.reverse ++ n :: n.laterSiblings := by
  obtain ⟨k, cs, path⟩ := n
  cases path with
  | nil => cases hp
  | cons c path =>
    cases hp
    have hchildren : (above (.node k cs) c path).children =
        c.before.reverse ++ .node k cs :: c.after := List.reverseAux_eq ..
    have hsplit := rightwards_reverse_append c.kind path c.before (.node k cs :: c.after)
    rw [childNodes, tree, hchildren]
    exact hsplit

theorem position_of_mem_leftwards (hm : m ∈ leftwards k path after before) :
    m.position + m.tree.nodeCount ≤ Tree.nodeCountOfAll before + 1 + positionAt path := by
  induction before generalizing after with
  | nil => cases hm
  | cons t before ih =>
    have hcount : Tree.nodeCountOfAll (t :: before) =
        t.nodeCount + Tree.nodeCountOfAll before := by rw [Tree.nodeCountOfAll]
    cases t with
    | token l s =>
      rw [leftwards] at hm
      have := ih hm
      omega
    | node l cs =>
      rw [leftwards, List.mem_cons] at hm
      rcases hm with rfl | hm
      · change Tree.nodeCountOfAll before + 1 + positionAt path + (Tree.node l cs).nodeCount ≤ _
        omega
      · have := ih hm
        omega

/-- **An earlier sibling ends before the node begins.** -/
theorem position_of_mem_earlierSiblings (hm : m ∈ n.earlierSiblings) :
    m.position + m.tree.nodeCount ≤ n.position := by
  obtain ⟨k, cs, path⟩ := n
  cases path with
  | nil => cases hm
  | cons c path => exact position_of_mem_leftwards hm

end Node

end Syntax

end TypeScribe

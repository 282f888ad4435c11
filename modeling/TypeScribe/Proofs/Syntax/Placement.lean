import TypeScribe.Proofs.Syntax.Emission
import TypeScribe.Proofs.Syntax.Position
/-!
# Where an emitted node stands

A builder puts trees side by side and nodes around them, and what is
closed it leaves alone. So a node that a part of a program emits is a node
of the tree that the whole program builds, and its position there is the
number of nodes that were entered before that part
(`exists_node_of_build?`). What comes before and after may be anything. It
need not be balanced, as long as the program as a whole builds a tree.
-/

namespace TypeScribe

namespace Syntax

namespace Tree

mutual

/-- The nodes of a tree without their surroundings, each before the nodes
inside it. -/
def subtrees : Tree → List Tree
  | token _ _ => []
  | node k cs => node k cs :: subtreesOfAll cs

/-- The nodes of several trees in a row. -/
def subtreesOfAll : List Tree → List Tree
  | [] => []
  | t :: ts => t.subtrees ++ subtreesOfAll ts

end

theorem subtreesOfAll_eq_flatMap (ts : List Tree) : subtreesOfAll ts = ts.flatMap subtrees := by
  induction ts with
  | nil => rfl
  | cons t ts ih => rw [subtreesOfAll, ih, List.flatMap_cons]

end Tree

namespace Node

variable {k : Kind} {path : List Crumb} {before after : List Tree}

theorem map_tree_nodesAmong
    (hafter : ∀ t ∈ after, ∀ path, (nodesOf path t).map tree = t.subtrees) :
    (nodesAmong k path before after).map tree = Tree.subtreesOfAll after := by
  induction after generalizing before with
  | nil => rfl
  | cons t after ih =>
    have hrest : (nodesAmong k path (t :: before) after).map tree = _ :=
      ih fun s hs => hafter s (by simp [hs])
    rw [nodesAmong, List.map_append, hafter t (by simp), hrest, Tree.subtreesOfAll]

/-- A walk meets the same trees wherever it takes place. -/
theorem map_tree_nodesOf (t : Tree) (path : List Crumb) :
    (nodesOf path t).map tree = t.subtrees := by
  induction t using Tree.induction generalizing path with
  | token k s => rfl
  | node k cs ih =>
    rw [nodesOf, List.map_cons, map_tree_nodesAmong ih, Tree.subtrees]
    rfl

/-- **In the walk through a whole tree**, a node has its position as its
number. -/
theorem exists_of_getElem?_subtrees {l : Kind} {ds : List Tree} {i : Nat} {t : Tree}
    (h : (Tree.node l ds).subtrees[i]? = some t) :
    ∃ n ∈ (⟨l, ds, []⟩ : Node).descendants, n.position = i ∧ n.tree = t := by
  have htrees : (⟨l, ds, []⟩ : Node).descendants.map tree = (Tree.node l ds).subtrees :=
    map_tree_nodesOf _ _
  rw [← htrees, List.getElem?_map, Option.map_eq_some_iff] at h
  obtain ⟨n, hn, rfl⟩ := h
  refine ⟨n, List.mem_of_getElem? hn, ?_, rfl⟩
  have hposition := map_position_descendants ⟨l, ds, []⟩
  have hcount := congrArg (fun l : List Nat => l[i]?) hposition
  simp only [List.getElem?_map, hn, Option.map_some] at hcount
  obtain ⟨hlt, heq⟩ := List.getElem?_eq_some_iff.1 hcount.symm
  rw [List.getElem_range'] at heq
  have hroot : (⟨l, ds, []⟩ : Node).position = 0 := rfl
  omega

end Node

/-- Whether the step begins a node. -/
def Step.isEnter : Step → Bool
  | .enter _ => true
  | _ => false

/-- How many nodes the program enters. -/
def Program.entered (p : Program) : Nat := p.countP Step.isEnter

theorem Program.entered_cons (s : Step) (p : Program) :
    Program.entered (s :: p) = Program.entered [s] + p.entered := by
  rw [Program.entered, ← List.singleton_append, List.countP_append]
  rfl

namespace Builder

variable {b b' : Builder} {s : Step} {p : Program} {t : Tree} {i : Nat}

/-- The nodes under construction in the order of the walk. Those that are
still open hold their places. -/
def nodes (emitted : List Tree) : List (Kind × List Tree) → List (Option Tree)
  | [] => (Tree.subtreesOfAll emitted.reverse).map some
  | (_, outer) :: opened =>
    nodes outer opened ++ none :: (Tree.subtreesOfAll emitted.reverse).map some

theorem nodes_cons (t : Tree) (emitted : List Tree) (opened : List (Kind × List Tree)) :
    nodes (t :: emitted) opened = nodes emitted opened ++ t.subtrees.map some := by
  cases opened <;> simp [nodes, Tree.subtreesOfAll_eq_flatMap]

/-- **What a step does to the nodes**: a token adds none, to enter a node
opens a place at the end, and to leave one fills its place. -/
theorem nodes_step (h : b.step s = some b') :
    (s.isEnter = false ∧ nodes b'.emitted b'.opened = nodes b.emitted b.opened) ∨
    (s.isEnter = true ∧ nodes b'.emitted b'.opened = nodes b.emitted b.opened ++ [none]) ∨
    (s.isEnter = false ∧ ∃ (front back : List (Option Tree)) (t : Tree),
      nodes b.emitted b.opened = front ++ none :: back ∧
      nodes b'.emitted b'.opened = front ++ some t :: back) := by
  obtain ⟨emitted, opened⟩ := b
  cases s with
  | token k text =>
    cases h
    refine .inl ⟨rfl, ?_⟩
    rw [nodes_cons, Tree.subtrees, List.map_nil, List.append_nil]
  | enter k =>
    cases h
    exact .inr (.inl ⟨rfl, rfl⟩)
  | leave =>
    cases opened with
    | nil => cases h
    | cons frame opened =>
      cases h
      refine .inr (.inr ⟨rfl, nodes frame.2 opened,
        (Tree.subtreesOfAll emitted.reverse).map some, .node frame.1 emitted.reverse, rfl, ?_⟩)
      rw [nodes_cons, Tree.subtrees, List.map_cons]

/-- A closed node stays in its place. -/
theorem getElem?_nodes_step (h : b.step s = some b')
    (ht : (nodes b.emitted b.opened)[i]? = some (some t)) :
    (nodes b'.emitted b'.opened)[i]? = some (some t) := by
  rcases nodes_step h with ⟨-, heq⟩ | ⟨-, heq⟩ | ⟨-, front, back, u, hb, hb'⟩
  · rw [heq, ht]
  · rw [heq, List.getElem?_append_left (List.getElem?_eq_some_iff.1 ht).1, ht]
  · -- the only place that changes was open
    rw [hb, List.getElem?_append] at ht
    rw [hb', List.getElem?_append]
    split at ht
    · rwa [if_pos ‹_›]
    · rw [if_neg ‹_›]
      cases hplace : i - front.length with
      | zero => simp [hplace] at ht
      | succ j => simpa [hplace] using ht

theorem length_nodes_step (h : b.step s = some b') :
    (nodes b'.emitted b'.opened).length =
      (nodes b.emitted b.opened).length + Program.entered [s] := by
  rcases nodes_step h with ⟨hs, heq⟩ | ⟨hs, heq⟩ | ⟨hs, front, back, u, hb, hb'⟩
  · simp [Program.entered, hs, heq]
  · simp [Program.entered, hs, heq]
  · simp [Program.entered, hs, hb, hb']

/-- So it is in a run. -/
theorem getElem?_nodes_run (h : b.run p = some b')
    (ht : (nodes b.emitted b.opened)[i]? = some (some t)) :
    (nodes b'.emitted b'.opened)[i]? = some (some t) := by
  induction p generalizing b with
  | nil =>
    cases h
    exact ht
  | cons s p ih =>
    obtain ⟨next, hstep, hrest⟩ := Option.bind_eq_some_iff.1 h
    exact ih hrest (getElem?_nodes_step hstep ht)

/-- And a run adds as many places as it enters nodes. -/
theorem length_nodes_run (h : b.run p = some b') :
    (nodes b'.emitted b'.opened).length = (nodes b.emitted b.opened).length + p.entered := by
  induction p generalizing b with
  | nil =>
    cases h
    rfl
  | cons s p ih =>
    obtain ⟨next, hstep, hrest⟩ := Option.bind_eq_some_iff.1 h
    rw [ih hrest, length_nodes_step hstep, Program.entered_cons s p, Nat.add_assoc]

theorem eq_of_finish? {k : Kind} {cs : List Tree} (h : b.finish? = some (.node k cs)) :
    b = ⟨[.node k cs], []⟩ := by
  obtain ⟨emitted, opened⟩ := b
  unfold finish? at h
  split at h
  · cases h
    simp_all
  · cases h

end Builder

namespace Program

variable {p q r : Program} {k l : Kind} {cs ds : List Tree}

/-- **A node that was emitted on the way is in the tree that was built**,
at the position that counts the nodes entered before it. -/
theorem exists_node_of_build? (hq : q.Emits [.node k cs])
    (h : (p ++ q ++ r).build? = some (.node l ds)) :
    ∃ n ∈ (⟨l, ds, []⟩ : Node).descendants, n.position = p.entered ∧ n.tree = .node k cs := by
  obtain ⟨last, hrun, hfinish⟩ := Option.bind_eq_some_iff.1 h
  rw [List.append_assoc, Builder.run_append] at hrun
  obtain ⟨b, hp, hrun⟩ := Option.bind_eq_some_iff.1 hrun
  rw [Builder.run_append, hq b, Option.bind_some] at hrun
  have hcount : (Builder.nodes b.emitted b.opened).length = p.entered := by
    rw [Builder.length_nodes_run hp]
    simp [Builder.empty, Builder.nodes, Tree.subtreesOfAll]
  have hplace : (Builder.nodes (b.append [.node k cs]).emitted (b.append [.node k cs]).opened)[
      p.entered]? = some (some (.node k cs)) := by
    have hnodes : Builder.nodes (.node k cs :: b.emitted) b.opened =
      Builder.nodes b.emitted b.opened ++ (Tree.node k cs).subtrees.map some :=
        Builder.nodes_cons ..
    change (Builder.nodes (.node k cs :: b.emitted) b.opened)[p.entered]? = _
    rw [hnodes, ← hcount, List.getElem?_append_right (Nat.le_refl _), Nat.sub_self, Tree.subtrees]
    rfl
  have hlast := Builder.getElem?_nodes_run hrun hplace
  rw [Builder.eq_of_finish? hfinish] at hlast
  refine Node.exists_of_getElem?_subtrees ?_
  simpa [Builder.nodes, Tree.subtreesOfAll] using hlast

end Program

end Syntax

end TypeScribe

import TypeScribe.Proofs.Syntax.Containment
import TypeScribe.Proofs.Syntax.Trivia
import TypeScribe.Proofs.Text.Lines
/-!
# What a dump tells

The lines of a dump are the nodes in the order of a walk, and each line
begins with the depth of its node and with the node's kind: no kind's name
begins with a space or has one in it, so whatever the shown tokens are,
they come after. Depths and kinds in this order are the tree's outline,
and an outline can have come from one nesting of nodes only, since what a
node holds ends where the depth falls back (`outlineOfAll_append_inj`). So
equal dumps are of trees that differ in tokens at most
(`skeleton_eq_of_dump_eq`).
-/

namespace TypeScribe

namespace Syntax

/-- The nodes of a tree in their nesting, with their kinds and without
their tokens. -/
inductive Skeleton
  | node (kind : Kind) (children : List Skeleton)
deriving Repr

namespace Skeleton

/-! ## Outlines -/

mutual

/-- The kinds in the order of a walk, each with its depth. -/
def outline (depth : Nat) : Skeleton → List (Nat × Kind)
  | node k ss => (depth, k) :: outlineOfAll (depth + 1) ss

/-- The outline of several skeletons in a row. -/
def outlineOfAll (depth : Nat) : List Skeleton → List (Nat × Kind)
  | [] => []
  | s :: ss => s.outline depth ++ outlineOfAll depth ss

end

variable {depth : Nat} {ss ts : List Skeleton} {xs ys : List (Nat × Kind)}

/-- **What passes from the children and the siblings to a node holds of
every row of skeletons.** -/
theorem rowInduction {P : List Skeleton → Prop} (nil : P [])
    (cons : ∀ k cs ss, P cs → P ss → P (node k cs :: ss)) : ∀ ss, P ss
  | [] => nil
  | node k cs :: ss => cons k cs ss (rowInduction nil cons cs) (rowInduction nil cons ss)

theorem outlineOfAll_append (depth : Nat) (ss ts : List Skeleton) :
    outlineOfAll depth (ss ++ ts) = outlineOfAll depth ss ++ outlineOfAll depth ts := by
  induction ss with
  | nil => rfl
  | cons s ss ih => rw [List.cons_append, outlineOfAll, outlineOfAll, ih, List.append_assoc]

/-- Where it does not go on at the depth of the row, no further skeleton
of the row begins. -/
theorem eq_nil_of_outlineOfAll_append (hxs : ∀ x ∈ xs.head?, x.1 < depth)
    (h : xs = outlineOfAll depth ts ++ ys) : ts = [] := by
  cases ts with
  | nil => rfl
  | cons t ts =>
    cases t with
    | node k cs =>
      rw [outlineOfAll, outline] at h
      have hlt := hxs (depth, k) (by rw [h]; rfl)
      exact absurd hlt (Nat.lt_irrefl _)

/-- After the outline of children it goes on no deeper than their
parent. -/
theorem head?_outlineOfAll_append_lt (hxs : ∀ x ∈ xs.head?, x.1 < depth) :
    ∀ x ∈ (outlineOfAll depth ss ++ xs).head?, x.1 < depth + 1 := by
  cases ss with
  | nil =>
    intro x hx
    exact Nat.lt_succ_of_lt (hxs x hx)
  | cons s ss =>
    cases s with
    | node k cs =>
      intro x hx
      rw [outlineOfAll, outline] at hx
      cases hx
      exact Nat.lt_succ_self depth

/-- **An outline has one nesting only**, and it ends where it goes on
above its depth. -/
theorem outlineOfAll_append_inj (hxs : ∀ x ∈ xs.head?, x.1 < depth)
    (hys : ∀ y ∈ ys.head?, y.1 < depth)
    (h : outlineOfAll depth ss ++ xs = outlineOfAll depth ts ++ ys) : ss = ts ∧ xs = ys := by
  induction ss using rowInduction generalizing depth ts xs ys with
  | nil =>
    obtain rfl := eq_nil_of_outlineOfAll_append hxs h
    exact ⟨rfl, h⟩
  | cons k cs ss ihChildren ihRow =>
    cases ts with
    | nil =>
      have hnil := eq_nil_of_outlineOfAll_append hys h.symm
      cases hnil
    | cons t ts =>
      cases t with
      | node l ds =>
        rw [outlineOfAll, outlineOfAll, outline, outline, List.cons_append, List.cons_append,
          List.cons_append, List.cons_append, List.append_assoc, List.append_assoc,
          List.cons.injEq, Prod.mk.injEq] at h
        obtain ⟨⟨-, rfl⟩, h⟩ := h
        obtain ⟨rfl, hrow⟩ := ihChildren (head?_outlineOfAll_append_lt hxs)
          (head?_outlineOfAll_append_lt hys) h
        obtain ⟨rfl, hrest⟩ := ihRow hxs hys hrow
        exact ⟨rfl, hrest⟩

end Skeleton

/-! ## Names of kinds -/

namespace Kind

/-- A kind is found by its name. -/
theorem ofLabel?_label (k : Kind) : ofLabel? k.label = some k := by
  have key : ∀ k ∈ all, ofLabel? k.label = some k := by decide
  exact key k k.mem_all

theorem label_injective {k l : Kind} (h : k.label = l.label) : k = l := by
  have hfound := ofLabel?_label k
  rw [h, ofLabel?_label l] at hfound
  exact (Option.some.inj hfound).symm

/-- A kind's name is one word. -/
theorem label_isWord (k : Kind) :
    k.label.toList ≠ [] ∧ ' ' ∉ k.label.toList ∧ '\n' ∉ k.label.toList := by
  have key : ∀ k ∈ all, k.label.toList ≠ [] ∧ ' ' ∉ k.label.toList ∧ '\n' ∉ k.label.toList := by
    decide
  exact key k k.mem_all

end Kind

namespace Tree

variable {t : Tree} {ts cs : List Tree} {k : Kind} {depth : Nat}

/-! ## Skeletons of trees -/

mutual

/-- The skeleton of a node; a token has none. -/
def skeletons : Tree → List Skeleton
  | token _ _ => []
  | node k cs => [.node k (skeletonsOfAll cs)]

/-- The skeletons of the nodes among trees in a row. -/
def skeletonsOfAll : List Tree → List Skeleton
  | [] => []
  | t :: ts => t.skeletons ++ skeletonsOfAll ts

end

/-! ## How a line begins -/

theorem toList_dumpLine (depth : Nat) (k : Kind) (cs : List Tree) :
    (dumpLine depth k cs).toList = List.replicate (2 * depth) ' ' ++ k.label.toList ++
      (shownTexts cs).flatMap fun s => ' ' :: s.toList := by
  simp [dumpLine, String.toList_join, List.flatMap_map]

/-- **A line begins with depth and kind.** -/
theorem lineHead_dumpLine (depth : Nat) (k : Kind) (cs : List Tree) :
    Text.lineHead (dumpLine depth k cs).toList = (2 * depth, k.label.toList) := by
  rw [toList_dumpLine]
  refine Text.lineHead_indented k.label_isWord.1 k.label_isWord.2.1 ?_
  cases shownTexts cs with
  | nil => simp
  | cons s texts => simp

/-- **The lines of a dump show the outline**, in their order. -/
theorem map_lineHead_dumpLines (depth : Nat) (t : Tree) :
    (t.dumpLines depth).map (fun line => Text.lineHead line.toList) =
      (Skeleton.outlineOfAll depth t.skeletons).map fun x => (2 * x.1, x.2.label.toList) := by
  induction t using Tree.induction generalizing depth with
  | token k s => rfl
  | node k cs ih =>
    have hchildren : (dumpLinesOfAll (depth + 1) cs).map (fun line => Text.lineHead line.toList) =
        (Skeleton.outlineOfAll (depth + 1) (skeletonsOfAll cs)).map
          fun x => (2 * x.1, x.2.label.toList) := by
      induction cs with
      | nil => rfl
      | cons c cs ihRow =>
        have hrow := ihRow fun d hd => ih d (List.mem_cons_of_mem c hd)
        rw [dumpLinesOfAll, skeletonsOfAll, Skeleton.outlineOfAll_append, List.map_append,
          List.map_append, ih c List.mem_cons_self, hrow]
    rw [dumpLines, skeletons, Skeleton.outlineOfAll, Skeleton.outlineOfAll, Skeleton.outline,
      List.append_nil, List.map_cons, List.map_cons, lineHead_dumpLine, hchildren]

/-- Indentation and name give back depth and kind. -/
theorem eq_of_map_heads_eq {xs ys : List (Nat × Kind)}
    (h : xs.map (fun x => (2 * x.1, x.2.label.toList)) =
      ys.map fun y => (2 * y.1, y.2.label.toList)) : xs = ys := by
  refine List.map_injective_iff.2 (fun x y hxy => ?_) h
  obtain ⟨i, k⟩ := x
  obtain ⟨j, l⟩ := y
  rw [Prod.mk.injEq] at hxy
  have hdepth : i = j := by omega
  have hkind : k = l := Kind.label_injective (String.toList_inj.1 hxy.2)
  rw [hdepth, hkind]

/-! ## Cutting a dump into lines -/

/-- No shown token of the tree has a line feed in its text. -/
def ShowsNoLineFeed (t : Tree) : Prop :=
  ∀ s ∈ t.tokens, s.1.isShown = true → '\n' ∉ s.2.toList

instance (t : Tree) : Decidable t.ShowsNoLineFeed :=
  inferInstanceAs (Decidable (∀ s ∈ t.tokens, s.1.isShown = true → '\n' ∉ s.2.toList))

theorem ShowsNoLineFeed.child (h : (node k cs).ShowsNoLineFeed) (ht : t ∈ cs) :
    t.ShowsNoLineFeed := by
  intro s hs
  refine h s ?_
  rw [tokens_node]
  exact List.mem_flatMap.2 ⟨t, ht, hs⟩

theorem ShowsNoLineFeed.not_mem_dumpLine (h : (node k cs).ShowsNoLineFeed) :
    '\n' ∉ (dumpLine depth k cs).toList := by
  have htexts : ∀ s ∈ shownTexts cs, '\n' ∉ s.toList := by
    intro s hs
    obtain ⟨t, ht, hshown⟩ := List.mem_filterMap.1 hs
    cases t with
    | node l ds => cases hshown
    | token l text =>
      simp only [Option.ite_none_right_eq_some, Option.some.injEq] at hshown
      obtain ⟨hl, rfl⟩ := hshown
      exact h.child ht (l, text) (by simp [tokens]) hl
  rw [toList_dumpLine]
  simp only [List.mem_append, List.mem_replicate, List.mem_flatMap, List.mem_cons, not_or,
    not_exists, not_and]
  exact ⟨⟨fun _ => by decide, k.label_isWord.2.2⟩, fun s hs => ⟨by decide, htexts s hs⟩⟩

/-- No line of a dump has a line feed in it. -/
theorem ShowsNoLineFeed.not_mem_of_mem_dumpLines (h : t.ShowsNoLineFeed) {line : String}
    (hline : line ∈ t.dumpLines depth) : '\n' ∉ line.toList := by
  induction t using Tree.induction generalizing depth with
  | token k s => cases hline
  | node k cs ih =>
    rw [dumpLines, dumpLinesOfAll_eq_flatMap, List.mem_cons, List.mem_flatMap] at hline
    rcases hline with rfl | ⟨c, hc, hline⟩
    · exact h.not_mem_dumpLine
    · exact ih c hc (h.child hc) hline

/-- **A dump is cut at its line feeds** into the lines it was made of. -/
theorem segments_dump (h : t.ShowsNoLineFeed) :
    Text.segments '\n' t.dump.toList = (t.dumpLines 0).map String.toList ++ [[]] :=
  Text.segments_lines fun _ => h.not_mem_of_mem_dumpLines

theorem dumpLines_eq_of_dump_eq {u : Tree} (ht : t.ShowsNoLineFeed) (hu : u.ShowsNoLineFeed)
    (h : t.dump = u.dump) : t.dumpLines 0 = u.dumpLines 0 := by
  have hlines := segments_dump ht
  rw [h, segments_dump hu, List.append_left_inj] at hlines
  exact (List.map_injective_iff.2 (fun a b => String.toList_inj.1) hlines).symm

/-- **The lines of a dump give the skeletons back.** -/
theorem skeletons_eq_of_dumpLines_eq {u : Tree} (h : t.dumpLines 0 = u.dumpLines 0) :
    t.skeletons = u.skeletons := by
  have hheads := map_lineHead_dumpLines 0 t
  rw [h, map_lineHead_dumpLines 0 u] at hheads
  have houtline : Skeleton.outlineOfAll 0 t.skeletons ++ [] =
      Skeleton.outlineOfAll 0 u.skeletons ++ [] := by rw [eq_of_map_heads_eq hheads]
  exact (Skeleton.outlineOfAll_append_inj (by simp) (by simp) houtline).1

end Tree

namespace Node

variable {n m : Node} {top : Nat}

/-- The nodes of a node, itself included, in their nesting. -/
def skeleton (n : Node) : Skeleton := .node n.kind (Tree.skeletonsOfAll n.children)

/-- A node's line in the dump of a tree whose root is at a given depth. -/
def line (top : Nat) (n : Node) : String := Tree.dumpLine (n.depth - top) n.kind n.children

/-- **The lines of a dump are those of the nodes**, in the order of the
walk. -/
theorem map_line_descendants (htop : top ≤ n.depth) :
    n.descendants.map (line top) = n.tree.dumpLines (n.depth - top) := by
  induction n using inductionFromChildren with
  | step n ih =>
    have hchildren : ∀ c ∈ n.childNodes,
        c.descendants.map (line top) = c.tree.dumpLines (n.depth - top + 1) := by
      intro c hc
      have hdepth := depth_of_parent? (parent?_of_mem_childNodes hc)
      rw [ih c hc (by omega), hdepth, Nat.succ_sub htop]
    have hcollect := flatMap_tree_childNodes n (f := Tree.dumpLines (n.depth - top + 1))
      fun k s => rfl
    rw [descendants_eq, List.map_cons, List.map_flatMap, List.flatMap_congr hchildren, hcollect,
      tree, Tree.dumpLines, Tree.dumpLinesOfAll_eq_flatMap]
    rfl

/-- **A dump determines the nodes of a tree.** If no shown token has a
line feed in it, the dump has a line for each node in the order of the
walk, each ended by a line feed, and two dumps are equal only if the nodes
have the same kinds in the same nesting and order. -/
theorem skeleton_eq_of_dump_eq (hn : n.tree.ShowsNoLineFeed) (hm : m.tree.ShowsNoLineFeed) :
    Text.segments '\n' n.tree.dump.toList =
      (n.descendants.map fun d => (line n.depth d).toList) ++ [[]] ∧
    (n.tree.dump = m.tree.dump → n.skeleton = m.skeleton) := by
  refine ⟨?_, fun hdump => ?_⟩
  · have hlines := map_line_descendants (Nat.le_refl n.depth)
    rw [Nat.sub_self] at hlines
    rw [Tree.segments_dump hn, ← hlines, List.map_map]
    rfl
  · have hlines := Tree.dumpLines_eq_of_dump_eq hn hm hdump
    exact List.singleton_inj.1 (Tree.skeletons_eq_of_dumpLines_eq hlines)

/-- The root of the code `$a = 'Name  1';`. -/
def spacedAssignment : Node where
  kind := .root
  children := [.node .exprStmt [.node .assign [.node .var [.token .varName "$a"],
      .token .whitespace " ", .token .equals "=", .token .whitespace " ",
      .node .literal [.token .stringLiteral "'Name  1'"]], .token .semicolon ";",
    .token .newline "\n"]]
  path := []

/-- The same code without spaces, and with a comment for its end. -/
def denseAssignment : Node where
  kind := .root
  children := [.node .exprStmt [.node .assign [.node .var [.token .varName "$a"],
      .token .equals "=", .node .literal [.token .stringLiteral "'Name  1'"]],
    .token .comment "?>\n"]]
  path := []

/-- Tokens that are not shown may have line feeds in them, and those that
are may look like other nodes. -/
theorem skeleton_eq_of_dump_eq_spaces :
    spacedAssignment.tree.ShowsNoLineFeed ∧ denseAssignment.tree.ShowsNoLineFeed ∧
    Text.segments '\n' spacedAssignment.tree.dump.toList =
      (spacedAssignment.descendants.map fun d => (line spacedAssignment.depth d).toList) ++ [[]] ∧
    spacedAssignment.tree.dump = denseAssignment.tree.dump ∧
    spacedAssignment.skeleton = denseAssignment.skeleton := by
  have hspaced : spacedAssignment.tree.ShowsNoLineFeed := by decide
  have hdense : denseAssignment.tree.ShowsNoLineFeed := by decide
  have hdump : spacedAssignment.tree.dump = denseAssignment.tree.dump := by decide
  obtain ⟨hlines, hskeleton⟩ := skeleton_eq_of_dump_eq hspaced hdense
  exact ⟨hspaced, hdense, hlines, hdump, hskeleton hdump⟩

end Node

end Syntax

end TypeScribe

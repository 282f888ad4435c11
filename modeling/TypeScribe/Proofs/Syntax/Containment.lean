import Mathlib.Logic.Relation
import TypeScribe.Proofs.Syntax.Position
/-!
# What lies in a node

A node lies in another if steps from a node to its parent lead from the one
to the other, any number of them. A walk through a node meets exactly what
lies in it (`mem_descendants_iff`), and the way up from a node passes
exactly what the node lies in (`mem_selfAndAncestors_iff`), so the two
directions agree. What a node lies in is nested, and hence the first node
with a property on the way up is the one that lies in all others
(`find?_ancestors_eq_some_iff`).
-/

namespace TypeScribe

namespace Syntax

namespace Node

variable {n m a b c p : Node} {k : Kind} {path : List Crumb} {before after : List Tree}

/-! ## Parents and children -/

/-- **The children of a node are the nodes that have it as their
parent.** -/
theorem mem_childNodes_iff : c ∈ n.childNodes ↔ c.parent? = some n := by
  refine ⟨parent?_of_mem_childNodes, fun hparent => ?_⟩
  rw [childNodes_of_parent? hparent]
  exact List.mem_append_right _ List.mem_cons_self

/-- How many nodes the node lies in, itself left out. -/
def depth (n : Node) : Nat := n.path.length

theorem depth_of_parent? (hp : n.parent? = some p) : n.depth = p.depth + 1 := by
  obtain ⟨k, cs, path⟩ := n
  cases path with
  | nil => cases hp
  | cons c path =>
    cases hp
    rfl

/-- The root has no ancestors. -/
theorem ancestors_eq_nil (hnone : n.parent? = none) : n.ancestors = [] := by
  rw [← List.head?_eq_none_iff, head?_ancestors, hnone]

/-- **What is collected from the child nodes** is collected from all
children, if tokens contribute nothing. -/
theorem flatMap_tree_childNodes {α : Type} {f : Tree → List α} (n : Node)
    (htoken : ∀ k s, f (.token k s) = []) :
    n.childNodes.flatMap (fun c => f c.tree) = n.children.flatMap f := by
  have hrow : ∀ after before,
      (rightwards n.kind n.path before after).flatMap (fun c => f c.tree) = after.flatMap f := by
    intro after
    induction after with
    | nil => intro before; rfl
    | cons t after ih =>
      intro before
      cases t with
      | token l s => rw [rightwards, ih, List.flatMap_cons, htoken, List.nil_append]
      | node l cs =>
        rw [rightwards, List.flatMap_cons, ih, List.flatMap_cons]
        rfl
  exact hrow n.children []

theorem tree_mem_of_mem_rightwards (hc : c ∈ rightwards k path before after) : c.tree ∈ after := by
  induction after generalizing before with
  | nil => cases hc
  | cons t after ih =>
    cases t with
    | token l s =>
      rw [rightwards] at hc
      exact List.mem_cons_of_mem _ (ih hc)
    | node l cs =>
      rw [rightwards, List.mem_cons] at hc
      rcases hc with rfl | hc
      · exact List.mem_cons_self
      · exact List.mem_cons_of_mem _ (ih hc)

/-- **What passes from the children to a node holds of every node.** -/
theorem inductionFromChildren {P : Node → Prop}
    (step : ∀ n : Node, (∀ c ∈ n.childNodes, P c) → P n) (n : Node) : P n := by
  have hall : ∀ (t : Tree) (n : Node), n.tree = t → P n := by
    intro t
    induction t using Tree.induction with
    | token l s =>
      intro n hn
      cases hn
    | node l cs ih =>
      intro n hn
      obtain ⟨k, ds, path⟩ := n
      cases hn
      exact step _ fun c hc => ih c.tree (tree_mem_of_mem_rightwards hc) c rfl
  exact hall n.tree n rfl

/-- **What passes from the parent to a node holds of every node**, if it
holds of the roots. -/
theorem inductionFromParent {P : Node → Prop} (root : ∀ n : Node, n.parent? = none → P n)
    (step : ∀ n p : Node, n.parent? = some p → P p → P n) (n : Node) : P n := by
  induction hdepth : n.depth generalizing n with
  | zero =>
    cases hp : n.parent? with
    | none => exact root n hp
    | some p =>
      have := depth_of_parent? hp
      omega
  | succ depth ih =>
    cases hp : n.parent? with
    | none => exact root n hp
    | some p =>
      have := depth_of_parent? hp
      exact step n p hp (ih p (by omega))

/-! ## Upwards and downwards -/

/-- The node is the other one, or a child of a node that lies in the other
one. -/
def LiesIn (m n : Node) : Prop := Relation.ReflTransGen (fun c p => c ∈ p.childNodes) m n

theorem LiesIn.refl (n : Node) : n.LiesIn n := Relation.ReflTransGen.refl

theorem LiesIn.trans (hma : m.LiesIn a) (han : a.LiesIn n) : m.LiesIn n :=
  Relation.ReflTransGen.trans hma han

/-- What lies in a node is the node or lies in one of its children. -/
theorem liesIn_iff_exists_child : m.LiesIn n ↔ m = n ∨ ∃ c ∈ n.childNodes, m.LiesIn c := by
  rw [LiesIn, Relation.ReflTransGen.cases_tail_iff]
  constructor
  · rintro (rfl | ⟨c, hm, hc⟩)
    · exact .inl rfl
    · exact .inr ⟨c, hc, hm⟩
  · rintro (rfl | ⟨c, hc, hm⟩)
    · exact .inl rfl
    · exact .inr ⟨c, hm, hc⟩

/-- What a node lies in is the node, or its parent lies in it. -/
theorem liesIn_iff_of_parent? (hp : n.parent? = some p) : n.LiesIn a ↔ n = a ∨ p.LiesIn a := by
  rw [LiesIn, Relation.ReflTransGen.cases_head_iff]
  refine or_congr_right ⟨?_, fun ha => ⟨p, mem_childNodes_iff.2 hp, ha⟩⟩
  rintro ⟨q, hq, ha⟩
  obtain rfl : p = q := Option.some.inj (hp.symm.trans (mem_childNodes_iff.1 hq))
  exact ha

/-- A root lies in itself only. -/
theorem liesIn_iff_of_root (hnone : n.parent? = none) : n.LiesIn a ↔ n = a := by
  rw [LiesIn, Relation.ReflTransGen.cases_head_iff]
  refine or_iff_left_of_imp ?_
  rintro ⟨q, hq, -⟩
  rw [mem_childNodes_iff.1 hq] at hnone
  cases hnone

/-- **A walk through a node meets exactly what lies in it.** -/
theorem mem_descendants_iff : m ∈ n.descendants ↔ m.LiesIn n := by
  induction n using inductionFromChildren with
  | step n ih =>
    rw [descendants_eq, List.mem_cons, List.mem_flatMap, liesIn_iff_exists_child]
    refine or_congr_right (exists_congr fun c => and_congr_right fun hc => ?_)
    exact ih c hc

/-- **The way up passes exactly what the node lies in.** -/
theorem mem_selfAndAncestors_iff : a ∈ n.selfAndAncestors ↔ n.LiesIn a := by
  induction n using inductionFromParent with
  | root n hnone =>
    rw [selfAndAncestors, ancestors_eq_nil hnone, List.mem_singleton, liesIn_iff_of_root hnone,
      eq_comm]
  | step n p hp ih =>
    rw [selfAndAncestors, ancestors_of_parent? hp, List.mem_cons, liesIn_iff_of_parent? hp, ← ih,
      selfAndAncestors, eq_comm]

/-- A node lies in each of its ancestors. -/
theorem mem_descendants_of_mem_selfAndAncestors (ha : a ∈ n.selfAndAncestors) :
    n ∈ a.descendants :=
  mem_descendants_iff.2 (mem_selfAndAncestors_iff.1 ha)

/-! ## Nesting -/

/-- Further in is deeper. -/
theorem LiesIn.eq_or_depth_lt (h : m.LiesIn n) : m = n ∨ n.depth < m.depth := by
  induction h with
  | refl => exact .inl rfl
  | @tail a n _ han ih =>
    have hdepth := depth_of_parent? (mem_childNodes_iff.1 han)
    rcases ih with rfl | hlt
    · exact .inr (by omega)
    · exact .inr (by omega)

theorem LiesIn.depth_le (h : m.LiesIn n) : n.depth ≤ m.depth := by
  rcases h.eq_or_depth_lt with rfl | hlt
  · exact Nat.le_refl _
  · exact Nat.le_of_lt hlt

theorem LiesIn.eq_of_depth_le (h : m.LiesIn n) (hle : m.depth ≤ n.depth) : m = n :=
  h.eq_or_depth_lt.resolve_right (by omega)

/-- Two nodes do not lie in one another. -/
theorem LiesIn.antisymm (hmn : m.LiesIn n) (hnm : n.LiesIn m) : m = n :=
  hmn.eq_of_depth_le hnm.depth_le

/-- What a node lies in is nested. -/
theorem LiesIn.total (ha : n.LiesIn a) (hb : n.LiesIn b) : a.LiesIn b ∨ b.LiesIn a := by
  refine Relation.ReflTransGen.total_of_right_unique (fun c p q hp hq => ?_) ha hb
  exact Option.some.inj ((mem_childNodes_iff.1 hp).symm.trans (mem_childNodes_iff.1 hq))

/-- The ancestors are what the node lies in, the node itself left out. -/
theorem mem_ancestors_iff : a ∈ n.ancestors ↔ a ≠ n ∧ n.LiesIn a := by
  cases hp : n.parent? with
  | none =>
    rw [ancestors_eq_nil hp, liesIn_iff_of_root hp, eq_comm (a := n)]
    simp
  | some p =>
    have habove : a ∈ n.ancestors ↔ p.LiesIn a := by
      rw [ancestors_of_parent? hp]
      exact mem_selfAndAncestors_iff
    rw [habove, liesIn_iff_of_parent? hp]
    refine ⟨fun ha => ⟨?_, .inr ha⟩, fun ⟨hne, ha⟩ => ha.resolve_left (Ne.symm hne)⟩
    rintro rfl
    have hdepth := depth_of_parent? hp
    have hle := ha.depth_le
    omega

/-- On the way up each node lies in those that follow. -/
theorem pairwise_liesIn_selfAndAncestors (n : Node) : n.selfAndAncestors.Pairwise LiesIn := by
  induction n using inductionFromParent with
  | root n hnone =>
    rw [selfAndAncestors, ancestors_eq_nil hnone]
    exact List.pairwise_singleton _ _
  | step n p hp ih =>
    rw [selfAndAncestors, ancestors_of_parent? hp]
    refine List.pairwise_cons.2 ⟨fun a ha => ?_, ih⟩
    exact (liesIn_iff_of_parent? hp).2 (.inr (mem_selfAndAncestors_iff.1 ha))

/-- **Of nested nodes the first with a property is the innermost**, the one
that lies in all others. -/
theorem find?_eq_some_iff_of_nested {nodes : List Node} (hnodes : nodes.Pairwise LiesIn)
    {q : Node → Bool} : nodes.find? q = some a ↔
      a ∈ nodes ∧ q a = true ∧ ∀ b ∈ nodes, q b = true → a.LiesIn b := by
  -- the first lies in those after it, and those before it do not have the property
  have hfirst : ∀ first, nodes.find? q = some first → ∀ b ∈ nodes, q b = true → first.LiesIn b := by
    intro first hfound b hb hqb
    obtain ⟨-, front, back, rfl, hfront⟩ := List.find?_eq_some_iff_append.1 hfound
    rcases List.mem_append.1 hb with hb | hb
    · have := hfront b hb
      simp [hqb] at this
    · rcases List.mem_cons.1 hb with rfl | hb
      · exact LiesIn.refl _
      · exact (List.pairwise_cons.1 (List.pairwise_append.1 hnodes).2.1).1 b hb
  constructor
  · intro hfound
    exact ⟨List.mem_of_find?_eq_some hfound, List.find?_some hfound, hfirst a hfound⟩
  · rintro ⟨ha, hqa, hall⟩
    cases hfound : nodes.find? q with
    | none => exact absurd hqa (List.find?_eq_none.1 hfound a ha)
    | some first =>
      have hin := hfirst first hfound a ha hqa
      have hback := hall first (List.mem_of_find?_eq_some hfound) (List.find?_some hfound)
      rw [hin.antisymm hback]

/-- The innermost of the nodes with a property that the node lies in. -/
theorem find?_selfAndAncestors_eq_some_iff {q : Node → Bool} :
    n.selfAndAncestors.find? q = some a ↔
      n.LiesIn a ∧ q a = true ∧ ∀ b, n.LiesIn b → q b = true → a.LiesIn b := by
  rw [find?_eq_some_iff_of_nested n.pairwise_liesIn_selfAndAncestors]
  simp only [mem_selfAndAncestors_iff]

/-- And of those other than the node itself. -/
theorem find?_ancestors_eq_some_iff {q : Node → Bool} : n.ancestors.find? q = some a ↔
    (a ≠ n ∧ n.LiesIn a) ∧ q a = true ∧ ∀ b, b ≠ n ∧ n.LiesIn b → q b = true → a.LiesIn b := by
  have hnested := (List.pairwise_cons.1 n.pairwise_liesIn_selfAndAncestors).2
  rw [find?_eq_some_iff_of_nested hnested]
  simp only [mem_ancestors_iff]

end Node

end Syntax

end TypeScribe

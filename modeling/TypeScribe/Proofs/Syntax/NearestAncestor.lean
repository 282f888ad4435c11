import TypeScribe.Proofs.Syntax.ScopeQueries
/-!
# The nearest ancestor of a class

The search upwards answers with a node exactly if the search downwards
from that node comes to where the first one began, and of all such nodes of
the classes with the innermost (`nearest_ancestor`). To look for several
classes at once is to take the deepest of what is found for each of them.
-/

namespace TypeScribe

namespace Syntax

namespace Node

variable {nodes : List Node} {classes : List NodeClass} {a : Node}

theorem isAnyOf_iff : a.isAnyOf classes = true ↔ ∃ cls ∈ classes, cls.contains a.kind = true := by
  rw [isAnyOf, List.any_eq_true]

/-- **Of nested nodes the first of several classes** is the deepest of the
first ones of each class. -/
theorem find?_isAnyOf_eq_some_iff_of_nested (hnodes : nodes.Pairwise LiesIn) :
    nodes.find? (·.isAnyOf classes) = some a ↔
      (∃ cls ∈ classes, nodes.find? (cls.contains ·.kind) = some a) ∧
      ∀ cls ∈ classes, ∀ b, nodes.find? (cls.contains ·.kind) = some b → b.depth ≤ a.depth := by
  -- the first of all is the first of its own class, and it lies in those of the others
  have hdeepest : ∀ first, nodes.find? (·.isAnyOf classes) = some first →
      (∃ cls ∈ classes, nodes.find? (cls.contains ·.kind) = some first) ∧
      ∀ cls ∈ classes, ∀ b, nodes.find? (cls.contains ·.kind) = some b → first.LiesIn b := by
    intro first hfound
    obtain ⟨hmem, hany, hall⟩ := (find?_eq_some_iff_of_nested hnodes).1 hfound
    obtain ⟨cls, hcls, hkind⟩ := isAnyOf_iff.1 hany
    refine ⟨⟨cls, hcls, (find?_eq_some_iff_of_nested hnodes).2 ⟨hmem, hkind, fun b hb hbkind => ?_⟩⟩,
      fun other hother b hb => ?_⟩
    · exact hall b hb (isAnyOf_iff.2 ⟨cls, hcls, hbkind⟩)
    · have hbkind := List.find?_some hb
      exact hall b (List.mem_of_find?_eq_some hb) (isAnyOf_iff.2 ⟨other, hother, hbkind⟩)
  constructor
  · intro hfound
    obtain ⟨hsingle, hall⟩ := hdeepest a hfound
    exact ⟨hsingle, fun cls hcls b hb => (hall cls hcls b hb).depth_le⟩
  · rintro ⟨⟨cls, hcls, ha⟩, hdepth⟩
    have hmem : a ∈ nodes := List.mem_of_find?_eq_some ha
    have hkind := List.find?_some ha
    have hany : a.isAnyOf classes = true := isAnyOf_iff.2 ⟨cls, hcls, hkind⟩
    cases hfound : nodes.find? (·.isAnyOf classes) with
    | none => exact absurd hany (List.find?_eq_none.1 hfound a hmem)
    | some first =>
      obtain ⟨⟨other, hother, hfirst⟩, hall⟩ := hdeepest first hfound
      have hin := hall cls hcls a ha
      rw [hin.eq_of_depth_le (hdepth other hother first hfirst)]

end Node

namespace Finder

theorem firstAncestorOfClasses?_name (n : Node) (classes : List NodeClass) :
    firstAncestorOfClasses? n (classes.map NodeClass.name) =
      .ok (n.ancestors.find? (·.isAnyOf classes)) := by
  rw [firstAncestorOfClasses?, Query.classes?_map_name]
  rfl

theorem firstAncestorOfClass?_name (n : Node) (cls : NodeClass) :
    firstAncestorOfClass? n cls.name = .ok (n.ancestors.find? (cls.contains ·.kind)) := by
  rw [firstAncestorOfClass?, Query.class?_name]
  rfl

/-- **The search upwards is dual to the search downwards.** For node
classes it answers with the innermost node of one of them, other than the
node itself, through which a search comes to the node, and with nothing
exactly if there is no such node. Asked for several classes it gives the
deepest of the answers for each, and for no class it gives nothing. -/
theorem nearest_ancestor (m : Node) (classes : List NodeClass) :
    ∃ found, firstAncestorOfClasses? m (classes.map NodeClass.name) = .ok found ∧
    (∀ a, found = some a ↔ a ≠ m ∧ a.isAnyOf classes = true ∧ m ∈ allNodes [a] ∧
      ∀ b, b ≠ m → b.isAnyOf classes = true → m.LiesIn b → a.LiesIn b) ∧
    (found = none ↔ ∀ b, b ≠ m → b.isAnyOf classes = true → ¬ m.LiesIn b) ∧
    (∀ a, found = some a ↔
      (∃ cls ∈ classes, firstAncestorOfClass? m cls.name = .ok (some a)) ∧
      ∀ cls ∈ classes, ∀ b, firstAncestorOfClass? m cls.name = .ok (some b) → b.depth ≤ a.depth) ∧
    (classes = [] → found = none) := by
  have hnested := (List.pairwise_cons.1 m.pairwise_liesIn_selfAndAncestors).2
  refine ⟨_, firstAncestorOfClasses?_name m classes, fun a => ?_, ?_, fun a => ?_, ?_⟩
  · have hsearch : m ∈ allNodes [a] ↔ m.LiesIn a := by
      rw [allNodes, List.flatMap_singleton, Node.mem_descendants_iff]
    rw [Node.find?_ancestors_eq_some_iff, hsearch]
    constructor
    · rintro ⟨⟨hne, hin⟩, hany, hall⟩
      exact ⟨hne, hany, hin, fun b hb hbany hbin => hall b ⟨hb, hbin⟩ hbany⟩
    · rintro ⟨hne, hany, hin, hall⟩
      exact ⟨⟨hne, hin⟩, hany, fun b hb hbany => hall b hb.1 hbany hb.2⟩
  · rw [List.find?_eq_none]
    simp only [Node.mem_ancestors_iff]
    exact ⟨fun h b hb hbany hbin => h b ⟨hb, hbin⟩ hbany,
      fun h b hb hbany => h b hb.1 hbany hb.2⟩
  · rw [Node.find?_isAnyOf_eq_some_iff_of_nested hnested]
    simp only [firstAncestorOfClass?_name, Except.ok.injEq]
  · rintro rfl
    rw [List.find?_eq_none]
    intro b _
    simp [Node.isAnyOf]

end Finder

end Syntax

end TypeScribe

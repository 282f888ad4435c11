import TypeScribe.Proofs.Syntax.Containment
/-!
# Addresses along a walk

A node's address says which way to go down from the root. What lies in a
node has an address that goes on from the node's, and of two siblings the
later one goes on with a greater number. So a walk takes its nodes in the
lexicographic order of their addresses (`pairwise_address_descendants`),
which is the order in which a node comes before what lies in it and what
lies in an earlier sibling before what lies in a later one. Siblings have
different addresses, so a node stands once among the children of its
parent, and what stands before and after it there are its siblings.
-/

namespace TypeScribe

namespace Syntax

namespace Node

variable {n m c : Node} {k : Kind} {path : List Crumb} {before after : List Tree}

/-- The address of a node whose way up to the root is given. -/
def addressAt (path : List Crumb) : List Nat :=
  (path.map fun c => c.before.length).reverse

theorem addressAt_cons (c : Crumb) (path : List Crumb) :
    addressAt (c :: path) = addressAt path ++ [c.before.length] := by
  rw [addressAt, List.map_cons, List.reverse_cons, addressAt]

/-! ## Siblings -/

/-- A child's address has one number more, which counts what precedes the
child. -/
theorem address_of_mem_rightwards (hc : c ∈ rightwards k path before after) :
    ∃ i, before.length ≤ i ∧ c.address = addressAt path ++ [i] := by
  induction after generalizing before with
  | nil => cases hc
  | cons t after ih =>
    have hlater (hc : c ∈ rightwards k path (t :: before) after) :
        ∃ i, before.length ≤ i ∧ c.address = addressAt path ++ [i] := by
      obtain ⟨i, hi, haddress⟩ := ih hc
      exact ⟨i, Nat.le_of_succ_le hi, haddress⟩
    cases t with
    | token l s => exact hlater hc
    | node l cs =>
      rw [rightwards, List.mem_cons] at hc
      rcases hc with rfl | hc
      · exact ⟨before.length, Nat.le_refl _, addressAt_cons _ path⟩
      · exact hlater hc

/-- These numbers grow from left to right. -/
theorem pairwise_address_rightwards (k : Kind) (path : List Crumb) (before after : List Tree) :
    (rightwards k path before after).Pairwise fun c d => ∃ i j, i < j ∧
      c.address = addressAt path ++ [i] ∧ d.address = addressAt path ++ [j] := by
  induction after generalizing before with
  | nil => exact .nil
  | cons t after ih =>
    cases t with
    | token l s => exact ih _
    | node l cs =>
      rw [rightwards]
      refine .cons (fun d hd => ?_) (ih _)
      obtain ⟨j, hj, haddress⟩ := address_of_mem_rightwards hd
      exact ⟨before.length, j, hj, addressAt_cons _ path, haddress⟩

theorem address_of_mem_childNodes (hc : c ∈ n.childNodes) : ∃ i, c.address = n.address ++ [i] := by
  obtain ⟨i, -, haddress⟩ := address_of_mem_rightwards hc
  exact ⟨i, haddress⟩

/-! ## Walks -/

/-- **What lies in a node has an address that goes on from the
node's.** -/
theorem address_prefix_of_liesIn (h : m.LiesIn n) : n.address <+: m.address := by
  induction h using Relation.ReflTransGen.head_induction_on with
  | refl => exact List.prefix_refl _
  | head hchild _ ih =>
    obtain ⟨i, haddress⟩ := address_of_mem_childNodes hchild
    rw [haddress]
    exact ih.trans (List.prefix_append _ _)

/-- What goes on comes later. -/
theorem lt_of_append_prefix {l x : List Nat} {i : Nat} (hx : l ++ [i] <+: x) : l < x := by
  obtain ⟨rest, rfl⟩ := hx
  have hlt : l ++ [] < l ++ i :: rest := List.append_left_lt (List.nil_lt_cons i rest)
  rwa [List.append_nil, List.append_cons] at hlt

/-- What goes on with the smaller number comes first. -/
theorem lt_of_append_prefixes {l x y : List Nat} {i j : Nat} (hx : l ++ [i] <+: x)
    (hy : l ++ [j] <+: y) (hij : i < j) : x < y := by
  obtain ⟨front, rfl⟩ := hx
  obtain ⟨back, rfl⟩ := hy
  rw [List.append_assoc, List.append_assoc]
  exact List.append_left_lt (List.cons_lt_cons_iff.2 (.inl hij))

/-- Children stand in the order of their addresses. -/
theorem pairwise_address_childNodes (n : Node) :
    n.childNodes.Pairwise fun c d => c.address < d.address := by
  refine (pairwise_address_rightwards n.kind n.path [] n.children).imp ?_
  rintro c d ⟨i, j, hij, hc, hd⟩
  rw [hc, hd]
  exact lt_of_append_prefixes (List.prefix_refl _) (List.prefix_refl _) hij

/-- **A walk goes in the lexicographic order of addresses.** -/
theorem pairwise_address_descendants (n : Node) :
    n.descendants.Pairwise fun a b => a.address < b.address := by
  induction n using inductionFromChildren with
  | step n ih =>
    rw [descendants_eq, List.pairwise_cons, List.pairwise_flatMap]
    refine ⟨fun m hm => ?_, ih, ?_⟩
    · obtain ⟨c, hc, hmc⟩ := List.mem_flatMap.1 hm
      obtain ⟨i, haddress⟩ := address_of_mem_childNodes hc
      have hprefix := address_prefix_of_liesIn (mem_descendants_iff.1 hmc)
      exact lt_of_append_prefix (haddress ▸ hprefix)
    · refine (pairwise_address_rightwards n.kind n.path [] n.children).imp ?_
      rintro c d ⟨i, j, hij, hc, hd⟩ a ha b hb
      have hac := address_prefix_of_liesIn (mem_descendants_iff.1 ha)
      have hbd := address_prefix_of_liesIn (mem_descendants_iff.1 hb)
      exact lt_of_append_prefixes (hc ▸ hac) (hd ▸ hbd) hij

/-! ## What stands beside a node -/

/-- No child stands twice among the children. -/
theorem nodup_childNodes (n : Node) : n.childNodes.Nodup := by
  refine n.pairwise_address_childNodes.imp ?_
  rintro c d hlt rfl
  exact List.lt_irrefl _ hlt

/-- **Siblings are what stands before and after a node** among the
children of its parent. -/
theorem siblings_of_childNodes {front back : List Node} (hsplit : n.childNodes = front ++ c :: back) :
    c.earlierSiblings = front.reverse ∧ c.laterSiblings = back := by
  have hmem : c ∈ n.childNodes := by
    rw [hsplit]
    exact List.mem_append_right _ List.mem_cons_self
  have hchildren := childNodes_of_parent? (parent?_of_mem_childNodes hmem)
  have hnodup := n.nodup_childNodes
  rw [hchildren] at hnodup
  have hfront : c ∉ c.earlierSiblings.reverse :=
    fun h => (List.nodup_append.1 hnodup).2.2 c h c List.mem_cons_self rfl
  have hback : c ∉ c.laterSiblings := (List.nodup_cons.1 (List.nodup_append.1 hnodup).2.1).1
  rw [hsplit] at hchildren
  obtain ⟨rfl, -, rfl⟩ := (List.append_cons_inj_of_notMem hfront hback).1 hchildren.symm
  exact ⟨(List.reverse_reverse _).symm, rfl⟩

/-- A root stands alone. -/
theorem siblings_of_root (hroot : n.parent? = none) :
    n.earlierSiblings = [] ∧ n.laterSiblings = [] := by
  obtain ⟨k, cs, path⟩ := n
  cases path with
  | nil => exact ⟨rfl, rfl⟩
  | cons c path => cases hroot

/-- **A later sibling sees a node among its earlier siblings**, and what
stands between them the other way round. -/
theorem earlierSiblings_of_laterSiblings {between rest : List Node}
    (hlater : n.laterSiblings = between ++ m :: rest) :
    m.earlierSiblings = between.reverse ++ n :: n.earlierSiblings := by
  cases hp : n.parent? with
  | none =>
    rw [(siblings_of_root hp).2] at hlater
    simp at hlater
  | some p =>
    have hsplit : p.childNodes = (n.earlierSiblings.reverse ++ n :: between) ++ m :: rest := by
      rw [childNodes_of_parent? hp, hlater, List.append_assoc, List.cons_append]
    rw [(siblings_of_childNodes hsplit).1, List.reverse_append, List.reverse_cons,
      List.append_assoc, List.singleton_append, List.reverse_reverse]

/-- **And an earlier sibling sees it among its later ones.** Further
earlier siblings are the earlier siblings of the nearer ones. -/
theorem laterSiblings_of_earlierSiblings {between rest : List Node}
    (hearlier : n.earlierSiblings = between ++ m :: rest) :
    m.laterSiblings = between.reverse ++ n :: n.laterSiblings ∧ m.earlierSiblings = rest := by
  cases hp : n.parent? with
  | none =>
    rw [(siblings_of_root hp).1] at hearlier
    simp at hearlier
  | some p =>
    have hsplit : p.childNodes = rest.reverse ++ m :: (between.reverse ++ n :: n.laterSiblings) := by
      rw [childNodes_of_parent? hp, hearlier, List.reverse_append, List.reverse_cons,
        List.append_assoc, List.append_assoc, List.singleton_append]
    obtain ⟨hfront, hback⟩ := siblings_of_childNodes hsplit
    exact ⟨hback, hfront.trans (List.reverse_reverse rest)⟩

end Node

end Syntax

end TypeScribe

import TypeScribe.Proofs.Syntax.Address
import TypeScribe.Syntax.View
/-!
# Walks along a statement list

The siblings of a node are what precedes and what follows it among the
children of its parent. From this it follows that the two steps along a
list of statements undo each other, and that step after step, in either
direction, a walk visits the statements of one node, all of them and no
others, and then ends (`statement_walks`). The statement around a node is
the innermost that the node lies in.
-/

namespace TypeScribe

namespace Syntax

namespace Node

variable {s t n : Node}

/-! ## Steps -/

/-- **From a statement forwards and back again.** -/
theorem previousStatement?_of_nextStatement? (hs : s.isStatement = true)
    (h : s.nextStatement? = some t) : t.previousStatement? = some s := by
  obtain ⟨-, between, rest, hlater, hbetween⟩ := List.find?_eq_some_iff_append.1 h
  rw [previousStatement?, earlierSiblings_of_laterSiblings hlater]
  exact List.find?_eq_some_iff_append.2
    ⟨hs, _, _, rfl, fun m hm => hbetween m (List.mem_reverse.1 hm)⟩

/-- **And backwards and forwards again.** -/
theorem nextStatement?_of_previousStatement? (ht : t.isStatement = true)
    (h : t.previousStatement? = some s) : s.nextStatement? = some t := by
  obtain ⟨-, between, rest, hearlier, hbetween⟩ := List.find?_eq_some_iff_append.1 h
  rw [nextStatement?, (laterSiblings_of_earlierSiblings hearlier).1]
  exact List.find?_eq_some_iff_append.2
    ⟨ht, _, _, rfl, fun m hm => hbetween m (List.mem_reverse.1 hm)⟩

/-! ## Walks -/

/-- Going on by `step` from a node, if there is one, visits the nodes of
the list in order and then ends. -/
inductive Follows (step : Node → Option Node) : Option Node → List Node → Prop
  | stop : Follows step none []
  | visit {s : Node} {rest : List Node} :
      Follows step (step s) rest → Follows step (some s) (s :: rest)

/-- A step that leads from each statement of a list to the next statement
in it walks along the list. -/
theorem follows_filter {nodes : List Node} {step : Node → Option Node}
    (hstep : ∀ front s back, nodes = front ++ s :: back → step s = back.find? isStatement) :
    Follows step (nodes.find? isStatement) (nodes.filter isStatement) := by
  induction nodes with
  | nil => exact .stop
  | cons c nodes ih =>
    have hrest := ih fun front s back hsplit =>
      hstep (c :: front) s back (by rw [hsplit, List.cons_append])
    cases hc : c.isStatement with
    | false =>
      rw [List.find?_cons_of_neg (by simp [hc]), List.filter_cons_of_neg (by simp [hc])]
      exact hrest
    | true =>
      rw [List.find?_cons_of_pos hc, List.filter_cons_of_pos hc]
      refine .visit ?_
      rw [hstep [] c nodes rfl]
      exact hrest

/-- **Forwards from the first statement of a node.** -/
theorem follows_nextStatement? (p : Node) :
    Follows nextStatement? p.statements.head? p.statements := by
  rw [statements, List.head?_filter]
  exact follows_filter fun front s back hsplit =>
    congrArg (List.find? isStatement) (siblings_of_childNodes hsplit).2

/-- **Backwards from the last one.** -/
theorem follows_previousStatement? (p : Node) :
    Follows previousStatement? p.statements.getLast? p.statements.reverse := by
  rw [← List.head?_reverse, statements, ← List.filter_reverse, List.head?_filter]
  refine follows_filter fun front s back hsplit => ?_
  have hchildren : p.childNodes = back.reverse ++ s :: front.reverse := by
    rw [← List.reverse_reverse p.childNodes, hsplit, List.reverse_append, List.reverse_cons,
      List.append_assoc, List.singleton_append]
  rw [previousStatement?, (siblings_of_childNodes hchildren).1, List.reverse_reverse]

/-! ## The statement around a node -/

/-- **The statement around a node is a statement it lies in with no other
in between.** -/
theorem enclosingStatement?_eq_some_iff : n.enclosingStatement? = some s ↔
    n.LiesIn s ∧ s.isStatement = true ∧
      ∀ t, n.LiesIn t → t.LiesIn s → t.isStatement = true → t = s := by
  rw [enclosingStatement?, find?_selfAndAncestors_eq_some_iff]
  refine and_congr_right fun hin => and_congr_right fun _ => ?_
  constructor
  · intro hinnermost t hnt hts ht
    exact hts.antisymm (hinnermost t hnt ht)
  · intro hnone t hnt ht
    rcases hin.total hnt with hst | hts
    · exact hst
    · rw [hnone t hnt hts ht]
      exact LiesIn.refl s

/-- **Steps along statements keep to their list.** From the first statement
directly inside a node the steps forwards visit all of them in order and
then end, and so do the steps backwards from the last one. For a root, a
block or a class these are the statements of its view. Between statements
the two steps undo each other. The statement around a node is the innermost
that the node lies in. -/
theorem statement_walks (p s t n : Node) :
    Follows nextStatement? p.statements.head? p.statements ∧
    Follows previousStatement? p.statements.getLast? p.statements.reverse ∧
    (∀ c, c ∈ p.statements ↔ c.parent? = some p ∧ c.isStatement = true) ∧
    (p.statements.Pairwise fun a b => a.address < b.address) ∧
    (p.kind = .root ∨ p.kind = .block → p.view = .statementList p.statements) ∧
    (p.kind = .classDecl → ∃ name parent, p.view = .classDecl name parent p.statements) ∧
    (s.isStatement = true → t.isStatement = true →
      (s.nextStatement? = some t ↔ t.previousStatement? = some s)) ∧
    (n.enclosingStatement? = some s ↔ n.LiesIn s ∧ s.isStatement = true ∧
      ∀ t, n.LiesIn t → t.LiesIn s → t.isStatement = true → t = s) := by
  refine ⟨follows_nextStatement? p, follows_previousStatement? p, fun c => ?_, ?_, ?_, ?_, ?_,
    enclosingStatement?_eq_some_iff⟩
  · rw [statements, List.mem_filter, mem_childNodes_iff]
  · exact p.pairwise_address_childNodes.filter isStatement
  · rintro (hkind | hkind) <;> rw [view, hkind]
  · intro hkind
    exact ⟨_, _, by rw [view, hkind]⟩
  · intro hs ht
    exact ⟨previousStatement?_of_nextStatement? hs, nextStatement?_of_previousStatement? ht⟩

end Node

end Syntax

end TypeScribe

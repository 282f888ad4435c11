import TypeScribe.Proofs.Syntax.Address
import TypeScribe.Syntax.Finder
import TypeScribe.Syntax.Shorthand
/-!
# Searching backwards

A search backwards takes the statement a node lies in and then, one step
at a time, the statement before the last one, until one of them holds what
is searched for or the list begins. It visits no statement twice, and it
finds what a search forwards finds in a scope that is known beforehand,
`Node.backwardScope`.

Each statement is searched as a whole, the one the node lies in included.
An earlier statement holds nothing but what comes before the node; the
node's own statement may hold an assignment that comes after it, and
`position_lt_of_previousAssignmentTo?` says when that one is found.
-/

namespace TypeScribe

namespace Syntax

namespace Finder

theorem first?_cons (s : Node) (scope : List Node) (p : Node → Bool) :
    first? (s :: scope) p = (s.descendants.find? p).or (first? scope p) := by
  rw [first?, allNodes, List.flatMap_cons, List.find?_append, first?, allNodes]

/-- A search forwards finds nothing exactly where there is nothing. -/
theorem first?_eq_none_iff {scope : List Node} {p : Node → Bool} :
    first? scope p = none ↔ ∀ s ∈ scope, ∀ m ∈ s.descendants, p m = false := by
  simp [first?, allNodes, List.find?_eq_none]

/-- **What a search forwards finds** is the first of the first part of the
scope that has one. -/
theorem first?_eq_some_iff {scope : List Node} {p : Node → Bool} {found : Node} :
    first? scope p = some found ↔ ∃ nearer s further, scope = nearer ++ s :: further ∧
      (∀ t ∈ nearer, ∀ m ∈ t.descendants, p m = false) ∧ s.descendants.find? p = some found := by
  rw [first?, allNodes, List.find?_flatMap, List.findSome?_eq_some_iff]
  have hnone : ∀ t : Node, t.descendants.find? p = none ↔ ∀ m ∈ t.descendants, p m = false := by
    intro t
    simp [List.find?_eq_none]
  constructor
  · rintro ⟨nearer, s, further, hsplit, hfound, hskipped⟩
    exact ⟨nearer, s, further, hsplit, fun t ht => (hnone t).1 (hskipped t ht), hfound⟩
  · rintro ⟨nearer, s, further, hsplit, hskipped, hfound⟩
    exact ⟨nearer, s, further, hsplit, hfound, fun t ht => (hnone t).2 (hskipped t ht)⟩

end Finder

namespace Node

variable {n s m : Node} {p : Node → Bool}

/-- What a search backwards from a node covers: the statement the node
lies in and those before it in its list, nearest first. -/
def backwardScope (n : Node) : List Node :=
  match n.enclosingStatement? with
  | none => []
  | some s => s :: s.precedingStatements

/-! ## One step back -/

/-- At the beginning of the list nothing precedes. -/
theorem precedingStatements_eq_nil (hnone : n.previousStatement? = none) :
    n.precedingStatements = [] := by
  rw [precedingStatements, List.filter_eq_nil_iff]
  exact List.find?_eq_none.1 hnone

/-- **What precedes a statement is the statement before it, and what
precedes that one.** -/
theorem precedingStatements_eq_cons (hprev : n.previousStatement? = some m) :
    n.precedingStatements = m :: m.precedingStatements := by
  obtain ⟨hstmt, nearer, further, hsplit, hskipped⟩ := List.find?_eq_some_iff_append.1 hprev
  have hfurther : m.earlierSiblings = further := (laterSiblings_of_earlierSiblings hsplit).2
  have hnone : nearer.filter isStatement = [] := by
    rw [List.filter_eq_nil_iff]
    intro t ht
    have := hskipped t ht
    simpa using this
  rw [precedingStatements, hsplit, List.filter_append, hnone, List.nil_append,
    List.filter_cons_of_pos hstmt, precedingStatements, hfurther]

/-- The statements of a parent are those before a statement, the statement
itself and later ones. -/
theorem statements_of_parent? {q : Node} (hstmt : s.isStatement = true)
    (hq : s.parent? = some q) :
    q.statements = s.precedingStatements.reverse ++ s :: s.laterSiblings.filter isStatement := by
  rw [statements, childNodes_of_parent? hq, List.filter_append, List.filter_reverse,
    List.filter_cons_of_pos hstmt, precedingStatements]

/-- What lies in a preceding statement comes before the statement. -/
theorem position_lt_of_mem_precedingStatements (hs : s ∈ n.precedingStatements)
    (hm : m ∈ s.descendants) : m.position < n.position := by
  have hsibling : s ∈ n.earlierSiblings := (List.mem_filter.1 hs).1
  have hrange := position_of_mem_descendants hm
  have hbefore := position_of_mem_earlierSiblings hsibling
  omega

/-! ## The search -/

/-- The search as one equation: the statement itself, or else whatever is
found from the statement before it. -/
theorem findBackwards?_eq_or (p : Node → Bool) (s : Node) :
    findBackwards? p s = (s.descendants.find? p).or (s.previousStatement?.bind (findBackwards? p)) := by
  rw [findBackwards?]
  cases s.descendants.find? p with
  | some found => rfl
  | none =>
    -- the equation of the recursion remembers what the previous statement is
    dsimp only [Option.none_or]
    split
    · rename_i hnone
      rw [hnone, Option.bind_none]
    · rename_i earlier hprev
      rw [hprev, Option.bind_some]

/-- **A search backwards is a search through the statements it visits.** -/
theorem findBackwards?_eq_first? (p : Node → Bool) (s : Node) :
    findBackwards? p s = Finder.first? (s :: s.precedingStatements) p := by
  induction hcount : s.precedingStatements.length generalizing s with
  | zero =>
    have hnil : s.precedingStatements = [] := List.length_eq_zero_iff.1 hcount
    have hnone : s.previousStatement? = none := by
      rw [← head?_precedingStatements, hnil, List.head?_nil]
    rw [findBackwards?_eq_or, Finder.first?_cons, hnone, hnil]
    rfl
  | succ count ih =>
    cases hprev : s.previousStatement? with
    | none => simp [precedingStatements_eq_nil hprev] at hcount
    | some earlier =>
      have hcons := precedingStatements_eq_cons hprev
      rw [hcons, List.length_cons] at hcount
      have hearlier := ih earlier (by omega)
      rw [findBackwards?_eq_or, Finder.first?_cons, hprev, hcons, Option.bind_some, hearlier]

/-- `findBackwards?` with a limit on the statements it may visit. -/
def findBackwardsWithin? (p : Node → Bool) : Nat → Node → Option (Option Node)
  | 0, _ => none
  | visits + 1, s =>
    match s.descendants.find? p, s.previousStatement? with
    | some found, _ => some (some found)
    | none, none => some none
    | none, some earlier => findBackwardsWithin? p visits earlier

/-- **The search ends**: it visits the statement and, at most, each one
before it. -/
theorem findBackwardsWithin?_eq {visits : Nat} (hvisits : s.precedingStatements.length < visits) :
    findBackwardsWithin? p visits s = some (findBackwards? p s) := by
  induction visits generalizing s with
  | zero => omega
  | succ visits ih =>
    rw [findBackwardsWithin?, findBackwards?_eq_or]
    cases hfound : s.descendants.find? p with
    | some found => rfl
    | none =>
      cases hprev : s.previousStatement? with
      | none => rfl
      | some earlier =>
        have hcons := precedingStatements_eq_cons hprev
        rw [hcons, List.length_cons] at hvisits
        exact ih (by omega)

end Node

namespace Finder

variable {f : Finder} {n expr a : Node} {p : Node → Bool}

/-- A search backwards from a node is one through the node's scope. -/
theorem firstPrevious?_eq (n : Node) (p : Node → Bool) :
    firstPrevious? n p = first? n.backwardScope p := by
  unfold firstPrevious? Node.backwardScope
  cases n.enclosingStatement? with
  | none => rfl
  | some s => exact Node.findBackwards?_eq_first? p s

/-- Whether a node is an assignment to the same code as `expr`. -/
def isAssignmentTo (f : Finder) (expr m : Node) : Bool :=
  m.assignedTo?.any (f.isSame · expr)

theorem previousAssignmentTo?_eq (f : Finder) (expr : Node) :
    f.previousAssignmentTo? expr = first? expr.backwardScope (f.isAssignmentTo expr) :=
  firstPrevious?_eq expr (f.isAssignmentTo expr)

/-- The first node with a property in a walk is the one with the least
position. -/
theorem position_le_of_find?_descendants {s m : Node} (ha : s.descendants.find? p = some a)
    (hm : m ∈ s.descendants) (hpm : p m = true) : a.position ≤ m.position := by
  obtain ⟨-, before, after, hsplit, hskipped⟩ := List.find?_eq_some_iff_append.1 ha
  have hsorted := Node.pairwise_position_descendants s
  rw [hsplit, List.pairwise_append] at hsorted
  rw [hsplit, List.mem_append, List.mem_cons] at hm
  rcases hm with hm | rfl | hm
  · have hnot := hskipped m hm
    simp [hpm] at hnot
  · exact Nat.le_refl _
  · have hlt := (List.pairwise_cons.1 hsorted.2.1).1 m hm
    omega

/-- What a search backwards finds is the first in the statement the node
lies in, or that statement has none and an earlier one holds it. -/
theorem cases_of_first?_backwardScope (ha : first? n.backwardScope p = some a) :
    ∃ s, n.enclosingStatement? = some s ∧ (s.descendants.find? p = some a ∨
      (∀ m ∈ s.descendants, p m = false) ∧ ∃ t ∈ s.precedingStatements, a ∈ t.descendants) := by
  obtain ⟨nearer, t, further, hsplit, hskipped, hfound⟩ := first?_eq_some_iff.1 ha
  unfold Node.backwardScope at hsplit
  cases hs : n.enclosingStatement? with
  | none =>
    rw [hs] at hsplit
    simp at hsplit
  | some s =>
    rw [hs] at hsplit
    cases nearer with
    | nil =>
      obtain ⟨rfl, -⟩ := List.cons.inj hsplit
      exact ⟨s, rfl, .inl hfound⟩
    | cons x nearer =>
      obtain ⟨rfl, hrest⟩ := List.cons.inj hsplit
      have ht : t ∈ s.precedingStatements := by simp [hrest]
      exact ⟨s, rfl, .inr ⟨hskipped s (by simp), t, ht, List.mem_of_find?_eq_some hfound⟩⟩

/-- **When an assignment is found that comes after the expression**: it
stands in the expression's own statement, and so does every other
assignment to the same code in that statement. An assignment in an earlier
statement comes before. -/
theorem position_lt_of_previousAssignmentTo? (ha : f.previousAssignmentTo? expr = some a) :
    expr.position < a.position ↔ ∃ s, expr.enclosingStatement? = some s ∧ a ∈ s.descendants ∧
      ∀ m ∈ s.descendants, f.isAssignmentTo expr m = true → expr.position < m.position := by
  rw [previousAssignmentTo?_eq] at ha
  obtain ⟨s, hs, hcases⟩ := cases_of_first?_backwardScope ha
  have hown : expr ∈ s.descendants :=
    Node.mem_descendants_of_mem_selfAndAncestors (List.mem_of_find?_eq_some hs)
  have hexpr := Node.position_of_mem_descendants hown
  constructor
  · intro hlater
    rcases hcases with hfirst | ⟨-, t, ht, hat⟩
    · refine ⟨s, hs, List.mem_of_find?_eq_some hfirst, fun m hm hassigns => ?_⟩
      have hleast := position_le_of_find?_descendants hfirst hm hassigns
      omega
    · have hbefore := Node.position_lt_of_mem_precedingStatements ht hat
      omega
  · rintro ⟨s', hs', has, hafter⟩
    obtain rfl : s = s' := Option.some.inj (hs.symm.trans hs')
    rcases hcases with hfirst | ⟨hnone, -⟩
    · exact hafter a has (List.find?_some hfirst)
    · have hassigns : f.isAssignmentTo expr a = true := by
        rw [first?] at ha
        exact List.find?_some ha
      simp [hnone a has] at hassigns

/-- The root of the code `if ($x) { $x = 1; }`. -/
def assignedInBody : Node where
  kind := .root
  children := [.node .ifStmt [.token .kwIf "if", .token .whitespace " ", .token .parenOpen "(",
    .node .var [.token .varName "$x"], .token .parenClose ")", .token .whitespace " ",
    .node .block [.token .braceOpen "\x7b", .token .newline "\n",
      .node .exprStmt [.node .assign [.node .var [.token .varName "$x"], .token .whitespace " ",
        .token .equals "=", .token .whitespace " ", .node .literal [.token .intNumber "1"]],
        .token .semicolon ";", .token .newline "\n"],
      .token .braceClose "\x7d"],
    .token .newline "\n"]]
  path := []

/-- The variable in its condition. -/
def testedVariable : Node := assignedInBody.descendants.get ⟨2, by decide⟩

/-- The assignment in its body. -/
def bodyAssignment : Node := assignedInBody.descendants.get ⟨5, by decide⟩

theorem first?_testedVariable :
    first? testedVariable.backwardScope (standard.isAssignmentTo testedVariable) =
      some bodyAssignment := rfl

/-- From the condition of an `if`, the assignment in its body is found, and
there is no other. -/
theorem position_lt_of_previousAssignmentTo?_condition :
    standard.previousAssignmentTo? testedVariable = some bodyAssignment ∧
    ∃ s, testedVariable.enclosingStatement? = some s ∧ bodyAssignment ∈ s.descendants ∧
      ∀ m ∈ s.descendants, standard.isAssignmentTo testedVariable m = true →
        testedVariable.position < m.position := by
  have hfound : standard.previousAssignmentTo? testedVariable = some bodyAssignment := by
    rw [previousAssignmentTo?_eq, first?_testedVariable]
  exact ⟨hfound, (position_lt_of_previousAssignmentTo? hfound).1 (by decide)⟩

/-- **A later assignment is found**: as number 5 of the tree, from number
2. -/
theorem previousAssignmentTo?_later :
    Program.build? (.node .root (.ifStmt (.var "x") (.assignStmt "x" (.int 1)))) =
      some assignedInBody.tree ∧ Node.ofTree? assignedInBody.tree = some assignedInBody ∧
    assignedInBody.descendants[2]? = some testedVariable ∧
    standard.previousAssignmentTo? testedVariable = some bodyAssignment ∧
    testedVariable.position = 2 ∧ bodyAssignment.position = 5 := by
  refine ⟨rfl, rfl, rfl, ?_, by decide, by decide⟩
  rw [previousAssignmentTo?_eq, first?_testedVariable]

end Finder

end Syntax

end TypeScribe

import TypeScribe.Proofs.Syntax.Backwards
import TypeScribe.Proofs.Syntax.Trivia
/-!
# Formatting is not seen

Two trees that differ in white space and comments only have the same nodes
in the same order, and a node of one answers every question as the node
with its number in the other does. Found nodes are compared by their
numbers: `Node.answers` and `Finder.answers` collect the answers with a
number in the place of every node.

The proof goes by way of the tree without trivia. `Node.withoutTrivia`
takes a node to its counterpart there, and it commutes with every walk: up,
down and sideways. Then a search in one tree finds what the search in the
other finds, as long as its condition does not see trivia.
-/

namespace TypeScribe

namespace Syntax

/-- The step up with no trivia on either side. -/
def Crumb.withoutTrivia (c : Crumb) : Crumb :=
  ⟨c.kind, Tree.withoutTriviaOfAll c.before, Tree.withoutTriviaOfAll c.after⟩

namespace Node

/-- The same node in the tree without trivia. -/
def withoutTrivia (n : Node) : Node :=
  ⟨n.kind, Tree.withoutTriviaOfAll n.children, n.path.map Crumb.withoutTrivia⟩

variable {n m r s : Node} {k : Kind} {path : List Crumb} {before after : List Tree}
variable {p q : Node → Bool}

theorem tree_withoutTrivia (n : Node) : n.withoutTrivia.tree = n.tree.withoutTrivia := by
  rw [tree, tree, Tree.withoutTrivia]
  rfl

/-- **A node keeps its number.** -/
theorem position_withoutTrivia (n : Node) : n.withoutTrivia.position = n.position := by
  have hcount : ∀ ts : List Tree,
      Tree.nodeCountOfAll (Tree.withoutTriviaOfAll ts) = Tree.nodeCountOfAll ts := by
    intro ts
    have hroot := Tree.nodeCount_withoutTrivia (.node .root ts)
    rw [Tree.withoutTrivia, Tree.nodeCount, Tree.nodeCount] at hroot
    omega
  simp only [position, withoutTrivia, List.foldr_map, Crumb.withoutTrivia, hcount]

/-! ## Down -/

theorem nodesAmong_withoutTrivia
    (hafter : ∀ t ∈ after, ∀ path, nodesOf (path.map Crumb.withoutTrivia) t.withoutTrivia =
      (nodesOf path t).map withoutTrivia) :
    nodesAmong k (path.map Crumb.withoutTrivia) (Tree.withoutTriviaOfAll before)
        (Tree.withoutTriviaOfAll after) = (nodesAmong k path before after).map withoutTrivia := by
  induction after generalizing before with
  | nil => rfl
  | cons t after ih =>
    have hfirst := hafter t List.mem_cons_self (⟨k, before, after⟩ :: path)
    have hrest : nodesAmong k (path.map Crumb.withoutTrivia) (Tree.withoutTriviaOfAll (t :: before))
        (Tree.withoutTriviaOfAll after) = _ :=
      ih fun u hu => hafter u (List.mem_cons_of_mem t hu)
    rw [nodesAmong, List.map_append, ← hfirst, ← hrest]
    by_cases h : t.isTriviaToken = true
    · have hnone : ∀ path, nodesOf path t.withoutTrivia = [] := by
        cases t with
        | token l s => exact fun _ => rfl
        | node l cs => cases h
      rw [Tree.withoutTriviaOfAll_cons_pos h, Tree.withoutTriviaOfAll_cons_pos h, hnone,
        List.nil_append]
    · rw [Tree.withoutTriviaOfAll_cons_neg h, Tree.withoutTriviaOfAll_cons_neg h, nodesAmong]
      rfl

theorem nodesOf_withoutTrivia (t : Tree) (path : List Crumb) :
    nodesOf (path.map Crumb.withoutTrivia) t.withoutTrivia =
      (nodesOf path t).map withoutTrivia := by
  induction t using Tree.induction generalizing path with
  | token k s => rfl
  | node k cs ih =>
    have hinside : nodesAmong k (path.map Crumb.withoutTrivia) (Tree.withoutTriviaOfAll [])
        (Tree.withoutTriviaOfAll cs) = _ := nodesAmong_withoutTrivia ih
    rw [Tree.withoutTrivia, nodesOf, nodesOf, List.map_cons, ← hinside]
    rfl

/-- **The walk through a node is the walk through its counterpart.** -/
theorem descendants_withoutTrivia (n : Node) :
    n.withoutTrivia.descendants = n.descendants.map withoutTrivia := by
  rw [descendants, descendants, tree_withoutTrivia]
  exact nodesOf_withoutTrivia n.tree n.path

/-- Different nodes of a tree have different counterparts, and nodes of two
trees with one number have the same. -/
theorem withoutTrivia_eq_of_position_eq (hrs : r.withoutTrivia = s.withoutTrivia)
    (hn : n ∈ r.descendants) (hm : m ∈ s.descendants) (hnm : n.position = m.position) :
    n.withoutTrivia = m.withoutTrivia := by
  have hwalk : r.descendants.map withoutTrivia = s.descendants.map withoutTrivia := by
    rw [← descendants_withoutTrivia, hrs, descendants_withoutTrivia]
  have hstart : r.position = s.position := by
    rw [← position_withoutTrivia, hrs, position_withoutTrivia]
  -- in both walks a node stands at the place its number says
  have hplace := congrArg (·[n.position - r.position]?) hwalk
  simp only [List.getElem?_map] at hplace
  rw [getElem?_descendants hn, hnm, hstart, getElem?_descendants hm] at hplace
  exact Option.some.inj hplace

/-! ## Sideways and up -/

theorem rightwards_withoutTrivia (k : Kind) (path : List Crumb) (before after : List Tree) :
    rightwards k (path.map Crumb.withoutTrivia) (Tree.withoutTriviaOfAll before)
        (Tree.withoutTriviaOfAll after) = (rightwards k path before after).map withoutTrivia := by
  induction after generalizing before with
  | nil => rfl
  | cons t after ih =>
    have hrest := ih (t :: before)
    by_cases h : t.isTriviaToken = true
    · cases t with
      | token l s =>
        rw [Tree.withoutTriviaOfAll_cons_pos h] at hrest ⊢
        rw [hrest, rightwards]
      | node l cs => cases h
    · rw [Tree.withoutTriviaOfAll_cons_neg h] at hrest ⊢
      cases t with
      | token l s =>
        rw [Tree.withoutTrivia] at hrest ⊢
        rw [rightwards, hrest, rightwards]
      | node l cs =>
        rw [Tree.withoutTrivia] at hrest ⊢
        rw [rightwards, hrest, rightwards, List.map_cons]
        rfl

theorem withoutTriviaOfAll_reverse_append (before after : List Tree) :
    Tree.withoutTriviaOfAll (before.reverse ++ after) =
      (Tree.withoutTriviaOfAll before).reverse ++ Tree.withoutTriviaOfAll after := by
  simp [Tree.withoutTriviaOfAll_eq_map]

theorem leftwards_withoutTrivia (k : Kind) (path : List Crumb) (before after : List Tree) :
    leftwards k (path.map Crumb.withoutTrivia) (Tree.withoutTriviaOfAll after)
        (Tree.withoutTriviaOfAll before) = (leftwards k path after before).map withoutTrivia := by
  -- the walk to the right over all children is this walk backwards and then the rest
  have hall : rightwards k (path.map Crumb.withoutTrivia) []
      (Tree.withoutTriviaOfAll (before.reverse ++ after)) = _ :=
    rightwards_withoutTrivia k path [] (before.reverse ++ after)
  rw [withoutTriviaOfAll_reverse_append, rightwards_reverse_append, rightwards_reverse_append,
    List.map_append, rightwards_withoutTrivia, List.map_reverse] at hall
  exact List.reverse_injective (List.append_cancel_right hall)

theorem above_withoutTrivia {t : Tree} (ht : ¬ t.isTriviaToken = true) (c : Crumb)
    (path : List Crumb) :
    above t.withoutTrivia c.withoutTrivia (path.map Crumb.withoutTrivia) =
      (above t c path).withoutTrivia := by
  simp only [above, withoutTrivia, Crumb.withoutTrivia, List.reverseAux_eq,
    withoutTriviaOfAll_reverse_append, Tree.withoutTriviaOfAll_cons_neg ht]

theorem allAbove_withoutTrivia {t : Tree} (ht : ¬ t.isTriviaToken = true) (path : List Crumb) :
    allAbove t.withoutTrivia (path.map Crumb.withoutTrivia) =
      (allAbove t path).map withoutTrivia := by
  induction path generalizing t with
  | nil => rfl
  | cons c path ih =>
    have hnode : ¬ (above t c path).tree.isTriviaToken = true := Bool.false_ne_true
    rw [List.map_cons, allAbove, allAbove, List.map_cons, above_withoutTrivia ht,
      tree_withoutTrivia, ih hnode]

theorem childNodes_withoutTrivia (n : Node) :
    n.withoutTrivia.childNodes = n.childNodes.map withoutTrivia :=
  rightwards_withoutTrivia n.kind n.path [] n.children

theorem ancestors_withoutTrivia (n : Node) :
    n.withoutTrivia.ancestors = n.ancestors.map withoutTrivia := by
  have hnode : ¬ n.tree.isTriviaToken = true := Bool.false_ne_true
  rw [ancestors, ancestors, tree_withoutTrivia]
  exact allAbove_withoutTrivia hnode n.path

theorem earlierSiblings_withoutTrivia (n : Node) :
    n.withoutTrivia.earlierSiblings = n.earlierSiblings.map withoutTrivia := by
  obtain ⟨k, cs, path⟩ := n
  cases path with
  | nil => rfl
  | cons c path =>
    have hself : Tree.withoutTriviaOfAll (.node k cs :: c.after) = _ :=
      Tree.withoutTriviaOfAll_cons_neg Bool.false_ne_true
    have hbefore := leftwards_withoutTrivia c.kind path c.before (.node k cs :: c.after)
    rwa [hself] at hbefore

theorem laterSiblings_withoutTrivia (n : Node) :
    n.withoutTrivia.laterSiblings = n.laterSiblings.map withoutTrivia := by
  obtain ⟨k, cs, path⟩ := n
  cases path with
  | nil => rfl
  | cons c path =>
    have hself : Tree.withoutTriviaOfAll (.node k cs :: c.before) = _ :=
      Tree.withoutTriviaOfAll_cons_neg Bool.false_ne_true
    have hafter := rightwards_withoutTrivia c.kind path (.node k cs :: c.before) c.after
    rwa [hself] at hafter

/-! ## Searching -/

/-- A search finds the counterpart, if its condition takes a counterpart
for the node. -/
theorem find?_map_withoutTrivia (hpq : ∀ n, q n.withoutTrivia = p n) (l : List Node) :
    (l.map withoutTrivia).find? q = (l.find? p).map withoutTrivia := by
  have hcomp : q ∘ withoutTrivia = p := funext hpq
  rw [List.find?_map, hcomp]

theorem filter_map_withoutTrivia (hpq : ∀ n, q n.withoutTrivia = p n) (l : List Node) :
    (l.map withoutTrivia).filter q = (l.filter p).map withoutTrivia := by
  have hcomp : q ∘ withoutTrivia = p := funext hpq
  rw [List.filter_map, hcomp]

theorem statements_withoutTrivia (n : Node) :
    n.withoutTrivia.statements = n.statements.map withoutTrivia := by
  rw [statements, childNodes_withoutTrivia]
  exact filter_map_withoutTrivia (fun _ => rfl) _

theorem expressions_withoutTrivia (n : Node) :
    n.withoutTrivia.expressions = n.expressions.map withoutTrivia := by
  rw [expressions, childNodes_withoutTrivia]
  exact filter_map_withoutTrivia (fun _ => rfl) _

theorem enclosingStatement?_withoutTrivia (n : Node) :
    n.withoutTrivia.enclosingStatement? = n.enclosingStatement?.map withoutTrivia := by
  rw [enclosingStatement?, selfAndAncestors, ancestors_withoutTrivia, ← List.map_cons]
  exact find?_map_withoutTrivia (fun _ => rfl) _

theorem previousStatement?_withoutTrivia (n : Node) :
    n.withoutTrivia.previousStatement? = n.previousStatement?.map withoutTrivia := by
  rw [previousStatement?, earlierSiblings_withoutTrivia]
  exact find?_map_withoutTrivia (fun _ => rfl) _

theorem nextStatement?_withoutTrivia (n : Node) :
    n.withoutTrivia.nextStatement? = n.nextStatement?.map withoutTrivia := by
  rw [nextStatement?, laterSiblings_withoutTrivia]
  exact find?_map_withoutTrivia (fun _ => rfl) _

theorem isAnonymous_withoutTrivia (n : Node) : n.withoutTrivia.isAnonymous = n.isAnonymous := by
  simp only [isAnonymous, withoutTrivia, Tree.nameAfter?_withoutTriviaOfAll]

theorem backwardScope_withoutTrivia (n : Node) :
    n.withoutTrivia.backwardScope = n.backwardScope.map withoutTrivia := by
  rw [backwardScope, backwardScope, enclosingStatement?_withoutTrivia]
  cases n.enclosingStatement? with
  | none => rfl
  | some s =>
    have hearlier : s.withoutTrivia.precedingStatements =
        s.precedingStatements.map withoutTrivia := by
      rw [precedingStatements, earlierSiblings_withoutTrivia]
      exact filter_map_withoutTrivia (fun _ => rfl) _
    exact congrArg (s.withoutTrivia :: ·) hearlier

theorem target?_withoutTrivia (n : Node) :
    n.withoutTrivia.target? = n.target?.map withoutTrivia := by
  rw [target?, expressions_withoutTrivia, List.getElem?_map, target?]

theorem value?_withoutTrivia (n : Node) :
    n.withoutTrivia.value? = n.value?.map withoutTrivia := by
  rw [value?, expressions_withoutTrivia, List.getElem?_map, value?]

/-- Only an assignment assigns to anything. -/
theorem assignedTo?_eq (n : Node) :
    n.assignedTo? = if n.kind = .assign then n.target? else none := by
  obtain ⟨k, cs, path⟩ := n
  cases k <;> rfl

theorem assignedTo?_withoutTrivia (n : Node) :
    n.withoutTrivia.assignedTo? = n.assignedTo?.map withoutTrivia := by
  have hkind : n.withoutTrivia.kind = n.kind := rfl
  rw [assignedTo?_eq, assignedTo?_eq, hkind, target?_withoutTrivia]
  split <;> rfl

/-- Both sides of a comparison may be taken without trivia. -/
theorem sameCode_withoutTrivia (a b : Tree) :
    a.withoutTrivia.sameCode b.withoutTrivia = a.sameCode b := by
  rw [Tree.sameCode, Tree.significant_withoutTrivia, Tree.significant_withoutTrivia, Tree.sameCode]

end Node

namespace Finder

open Node (withoutTrivia)

variable {p q : Node → Bool} {ε α β γ : Type}

theorem allNodes_withoutTrivia (scope : List Node) :
    allNodes (scope.map withoutTrivia) = (allNodes scope).map withoutTrivia := by
  rw [allNodes, allNodes, List.flatMap_map, List.map_flatMap]
  simp only [Node.descendants_withoutTrivia]

theorem first?_withoutTrivia (hpq : ∀ n, q (withoutTrivia n) = p n) (scope : List Node) :
    first? (scope.map withoutTrivia) q = (first? scope p).map withoutTrivia := by
  rw [first?, first?, allNodes_withoutTrivia, Node.find?_map_withoutTrivia hpq]

theorem all_withoutTrivia (hpq : ∀ n, q (withoutTrivia n) = p n) (scope : List Node) :
    all (scope.map withoutTrivia) q = (all scope p).map withoutTrivia := by
  rw [all, all, allNodes_withoutTrivia, Node.filter_map_withoutTrivia hpq]

theorem any_allNodes_withoutTrivia (hpq : ∀ n, q (withoutTrivia n) = p n) (scope : List Node) :
    (allNodes (scope.map withoutTrivia)).any q = (allNodes scope).any p := by
  have hcomp : q ∘ withoutTrivia = p := funext hpq
  rw [allNodes_withoutTrivia, List.any_map, hcomp]

theorem firstPrevious?_withoutTrivia (hpq : ∀ n, q (withoutTrivia n) = p n) (n : Node) :
    firstPrevious? (withoutTrivia n) q = (firstPrevious? n p).map withoutTrivia := by
  rw [firstPrevious?_eq, firstPrevious?_eq, Node.backwardScope_withoutTrivia,
    first?_withoutTrivia hpq]

theorem previousAssignmentTo?_withoutTrivia (n : Node) :
    standard.previousAssignmentTo? (withoutTrivia n) =
      (standard.previousAssignmentTo? n).map withoutTrivia := by
  refine firstPrevious?_withoutTrivia (fun m => ?_) n
  rw [Node.assignedTo?_withoutTrivia, Option.any_map]
  have hsame : ∀ a : Node, standard.isSame (withoutTrivia a) (withoutTrivia n) =
      standard.isSame a n := by
    intro a
    change (withoutTrivia a).tree.sameCode (withoutTrivia n).tree = _
    rw [Node.tree_withoutTrivia, Node.tree_withoutTrivia, Node.sameCode_withoutTrivia]
    rfl
  exact congrArg (m.assignedTo?.any ·) (funext hsame)

theorem isNamed_withoutTrivia (n : Node) (name : String) :
    standard.isNamed (withoutTrivia n) name = standard.isNamed n name := by
  change (withoutTrivia n).tree.answersTo name = _
  rw [Node.tree_withoutTrivia, Tree.answersTo_withoutTrivia]
  rfl

/-- A query that refuses unknown classes answers alike if it does so for
the classes there are. -/
theorem map_query_congr {e : Except ε α} {f g : α → β} {h : β → γ}
    (hfg : ∀ a, h (f a) = h (g a)) :
    (do let a ← e; return f a : Except ε β).map h =
      (do let a ← e; return g a : Except ε β).map h := by
  cases e with
  | error _ => rfl
  | ok a => exact congrArg Except.ok (hfg a)

end Finder

/-! ## All answers -/

/-- What a node answers, with a number in the place of each node found. -/
structure Answers where
  /-- The dump of the node. -/
  dump : String
  /-- The name the node carries. -/
  name : Option String
  /-- Whether it has a given name. -/
  isNamed : String → Bool
  /-- The type it states. -/
  statedTy : Option Ty
  /-- The name of a class and that of its parent. -/
  classNames : Option String × Option String
  /-- The name of an interface or a trait. -/
  otherName : Option String
  /-- Whether it is a class without a name. -/
  isAnonymous : Bool
  /-- The statements of a list, or the members of a class. -/
  statements : List Nat
  /-- The left side of an assignment. -/
  target : Option Nat
  /-- The right side of an assignment. -/
  value : Option Nat
  /-- The statement it lies in. -/
  enclosingStatement : Option Nat
  /-- The statement before it in its list. -/
  previousStatement : Option Nat
  /-- The statement after it in its list. -/
  nextStatement : Option Nat
  /-- Whether it is the same code as a given tree, compared either way
  round. -/
  isSameAs : Tree → Bool × Bool
  /-- Its nearest ancestor of some classes. -/
  firstAncestorOfClasses : List String → Except UnknownClass (Option Nat)
  /-- Its nearest ancestor of one class. -/
  firstAncestorOfClass : String → Except UnknownClass (Option Nat)
  /-- What a search backwards finds of some classes. -/
  firstPreviousOfClasses : List String → Except UnknownClass (Option Nat)
  /-- The previous assignment to it. -/
  previousAssignment : Option Nat

/-- What a scope answers, with a number in the place of each node found. -/
structure ScopeAnswers where
  /-- The nodes of a class. -/
  allOfClass : String → Except UnknownClass (List Nat)
  /-- The first of them. -/
  firstOfClass : String → Except UnknownClass (Option Nat)
  /-- The last of them. -/
  lastOfClass : String → Except UnknownClass (Option Nat)
  /-- Whether there is a node of some classes. -/
  hasDescendantOfClasses : List String → Except UnknownClass Bool
  /-- The named declarations of classes, interfaces and traits. -/
  classLikes : List Nat
  /-- The first of them. -/
  firstNamedClassLike : Option Nat
  /-- The first node of a class with a name. -/
  descendantNamed : String → String → Except UnknownClass (Option Nat)
  /-- Whether there is one. -/
  hasDescendantNamed : String → String → Except UnknownClass Bool
  /-- The first variable with a name. -/
  variableNamed : String → Option Nat
  /-- Whether there is one. -/
  hasVariableNamed : String → Bool

/-- The answers of a node. -/
def Node.answers (n : Node) : Answers where
  dump := n.tree.dump
  name := n.tree.name?
  isNamed := n.tree.answersTo
  statedTy := n.tree.statedTy?
  classNames := (Tree.nameAfter? .kwClass n.children, Tree.nameAfter? .kwExtends n.children)
  otherName := n.children.findSome? Tree.asName?
  isAnonymous := n.isAnonymous
  statements := n.statements.map position
  target := n.target?.map position
  value := n.value?.map position
  enclosingStatement := n.enclosingStatement?.map position
  previousStatement := n.previousStatement?.map position
  nextStatement := n.nextStatement?.map position
  isSameAs t := (n.tree.sameCode t, t.sameCode n.tree)
  firstAncestorOfClasses names := (Finder.firstAncestorOfClasses? n names).map (Option.map position)
  firstAncestorOfClass name := (Finder.firstAncestorOfClass? n name).map (Option.map position)
  firstPreviousOfClasses names := (Finder.firstPreviousOfClasses? n names).map (Option.map position)
  previousAssignment := (Finder.standard.previousAssignmentTo? n).map position

/-- The answers of a scope. -/
def Finder.answers (scope : List Node) : ScopeAnswers where
  allOfClass name := (allOfClass scope name).map (List.map Node.position)
  firstOfClass name := (firstOfClass? scope name).map (Option.map Node.position)
  lastOfClass name := (lastOfClass? scope name).map (Option.map Node.position)
  hasDescendantOfClasses := hasDescendantOfClasses scope
  classLikes := (classLikes scope).map Node.position
  firstNamedClassLike := (firstNamedClassLike? scope).map Node.position
  descendantNamed cls name := (standard.descendantNamed? scope cls name).map (Option.map Node.position)
  hasDescendantNamed := standard.hasDescendantNamed scope
  variableNamed name := (standard.variableNamed? scope name).map Node.position
  hasVariableNamed := standard.hasVariableNamed scope

namespace Node

variable {r s : Node}

@[simp] theorem map_position_option (found : Option Node) :
    (found.map withoutTrivia).map position = found.map position := by
  rw [Option.map_map, funext position_withoutTrivia (f := position ∘ withoutTrivia)]

@[simp] theorem map_position_list (found : List Node) :
    (found.map withoutTrivia).map position = found.map position := by
  rw [List.map_map, funext position_withoutTrivia (f := position ∘ withoutTrivia)]

theorem firstAncestorOfClasses?_withoutTrivia (n : Node) (names : List String) :
    (Finder.firstAncestorOfClasses? n.withoutTrivia names).map (Option.map position) =
      (Finder.firstAncestorOfClasses? n names).map (Option.map position) := by
  refine Finder.map_query_congr fun classes => ?_
  rw [ancestors_withoutTrivia, find?_map_withoutTrivia fun _ => rfl, map_position_option]
  rfl

theorem firstAncestorOfClass?_withoutTrivia (n : Node) (name : String) :
    (Finder.firstAncestorOfClass? n.withoutTrivia name).map (Option.map position) =
      (Finder.firstAncestorOfClass? n name).map (Option.map position) := by
  refine Finder.map_query_congr fun cls => ?_
  rw [ancestors_withoutTrivia, find?_map_withoutTrivia fun _ => rfl, map_position_option]
  rfl

theorem firstPreviousOfClasses?_withoutTrivia (n : Node) (names : List String) :
    (Finder.firstPreviousOfClasses? n.withoutTrivia names).map (Option.map position) =
      (Finder.firstPreviousOfClasses? n names).map (Option.map position) := by
  refine Finder.map_query_congr fun classes => ?_
  rw [Finder.firstPrevious?_withoutTrivia fun _ => rfl, map_position_option]
  rfl

/-- **A node answers as its counterpart without trivia.** -/
theorem answers_withoutTrivia (n : Node) : n.withoutTrivia.answers = n.answers := by
  have hchildren : n.withoutTrivia.children = Tree.withoutTriviaOfAll n.children := rfl
  have hsame : ∀ t, (n.tree.withoutTrivia.sameCode t, t.sameCode n.tree.withoutTrivia) =
      (n.tree.sameCode t, t.sameCode n.tree) := by
    intro t
    simp only [Tree.sameCode, Tree.significant_withoutTrivia]
  simp only [answers, tree_withoutTrivia, hchildren, Tree.dump_withoutTrivia,
    Tree.name?_withoutTrivia, funext (Tree.answersTo_withoutTrivia n.tree),
    Tree.statedTy?_withoutTrivia, Tree.nameAfter?_withoutTriviaOfAll,
    Tree.findSome?_asName?_withoutTriviaOfAll, isAnonymous_withoutTrivia,
    statements_withoutTrivia, target?_withoutTrivia, value?_withoutTrivia,
    enclosingStatement?_withoutTrivia, previousStatement?_withoutTrivia,
    nextStatement?_withoutTrivia, hsame, firstAncestorOfClasses?_withoutTrivia,
    firstAncestorOfClass?_withoutTrivia, firstPreviousOfClasses?_withoutTrivia,
    Finder.previousAssignmentTo?_withoutTrivia, map_position_option, map_position_list]

/-- Nodes with the same numbers have the same counterparts. -/
theorem map_withoutTrivia_eq_of_positions (hrs : r.withoutTrivia = s.withoutTrivia)
    {ns ms : List Node} (hns : ns ⊆ r.descendants) (hms : ms ⊆ s.descendants)
    (hsame : ns.map position = ms.map position) :
    ns.map withoutTrivia = ms.map withoutTrivia := by
  induction ns generalizing ms with
  | nil =>
    cases ms with
    | nil => rfl
    | cons m ms => cases hsame
  | cons n ns ih =>
    cases ms with
    | nil => cases hsame
    | cons m ms =>
      obtain ⟨hnm, hrest⟩ := List.cons.inj hsame
      rw [List.cons_subset] at hns hms
      rw [List.map_cons, List.map_cons, ih hns.2 hms.2 hrest,
        withoutTrivia_eq_of_position_eq hrs hns.1 hms.1 hnm]

end Node

namespace Finder

open Node (withoutTrivia map_position_option map_position_list)

theorem allOfClass_withoutTrivia (scope : List Node) (name : String) :
    (allOfClass (scope.map withoutTrivia) name).map (List.map Node.position) =
      (allOfClass scope name).map (List.map Node.position) := by
  refine map_query_congr fun cls => ?_
  rw [all_withoutTrivia fun _ => rfl, map_position_list]
  rfl

theorem firstOfClass?_withoutTrivia (scope : List Node) (name : String) :
    (firstOfClass? (scope.map withoutTrivia) name).map (Option.map Node.position) =
      (firstOfClass? scope name).map (Option.map Node.position) := by
  refine map_query_congr fun cls => ?_
  rw [first?_withoutTrivia fun _ => rfl, map_position_option]
  rfl

theorem lastOfClass?_withoutTrivia (scope : List Node) (name : String) :
    (lastOfClass? (scope.map withoutTrivia) name).map (Option.map Node.position) =
      (lastOfClass? scope name).map (Option.map Node.position) := by
  refine map_query_congr fun cls => ?_
  rw [all_withoutTrivia fun _ => rfl, List.getLast?_map, map_position_option]
  rfl

theorem hasDescendantOfClasses_withoutTrivia (scope : List Node) (names : List String) :
    hasDescendantOfClasses (scope.map withoutTrivia) names = hasDescendantOfClasses scope names := by
  have hany : ∀ classes : List NodeClass,
      (allNodes (scope.map withoutTrivia)).any (·.isAnyOf classes) =
        (allNodes scope).any (·.isAnyOf classes) := fun classes =>
    any_allNodes_withoutTrivia (fun _ => rfl) scope
  simp only [hasDescendantOfClasses, hany]

theorem classLikes_withoutTrivia (scope : List Node) :
    classLikes (scope.map withoutTrivia) = (classLikes scope).map withoutTrivia := by
  have hclass : ∀ n, (withoutTrivia n).isClassLike = n.isClassLike := fun _ => rfl
  have hnamed : ∀ n, (!(withoutTrivia n).isAnonymous) = !n.isAnonymous := fun n => by
    rw [Node.isAnonymous_withoutTrivia]
  rw [classLikes, classLikes, allNodes_withoutTrivia, Node.filter_map_withoutTrivia hclass,
    Node.filter_map_withoutTrivia hnamed]

theorem firstNamedClassLike?_withoutTrivia (scope : List Node) :
    firstNamedClassLike? (scope.map withoutTrivia) =
      (firstNamedClassLike? scope).map withoutTrivia := by
  refine first?_withoutTrivia (fun n => ?_) scope
  rw [Node.isAnonymous_withoutTrivia]
  rfl

theorem descendantNamed?_withoutTrivia (scope : List Node) (cls name : String) :
    (standard.descendantNamed? (scope.map withoutTrivia) cls name).map (Option.map Node.position) =
      (standard.descendantNamed? scope cls name).map (Option.map Node.position) := by
  refine map_query_congr fun cls => ?_
  rw [first?_withoutTrivia fun n => by rw [isNamed_withoutTrivia], map_position_option]
  rfl

theorem hasDescendantNamed_withoutTrivia (scope : List Node) (cls name : String) :
    standard.hasDescendantNamed (scope.map withoutTrivia) cls name =
      standard.hasDescendantNamed scope cls name := by
  have hany : ∀ cls : NodeClass, (allNodes (scope.map withoutTrivia)).any
      (fun n => cls.contains n.kind && standard.isNamed n name) =
        (allNodes scope).any fun n => cls.contains n.kind && standard.isNamed n name := fun cls =>
    any_allNodes_withoutTrivia (fun n => by rw [isNamed_withoutTrivia]; rfl) scope
  simp only [hasDescendantNamed, hany]

theorem variableNamed?_withoutTrivia (scope : List Node) (name : String) :
    standard.variableNamed? (scope.map withoutTrivia) name =
      (standard.variableNamed? scope name).map withoutTrivia := by
  refine first?_withoutTrivia (fun n => ?_) scope
  rw [isNamed_withoutTrivia]
  rfl

/-- **So does a scope.** -/
theorem answers_map_withoutTrivia (scope : List Node) :
    answers (scope.map withoutTrivia) = answers scope := by
  have hhas : hasDescendantOfClasses (scope.map withoutTrivia) = hasDescendantOfClasses scope :=
    funext (hasDescendantOfClasses_withoutTrivia scope)
  have hnamed : standard.hasDescendantNamed (scope.map withoutTrivia) =
      standard.hasDescendantNamed scope :=
    funext fun cls => funext (hasDescendantNamed_withoutTrivia scope cls)
  have hvariable : standard.hasVariableNamed (scope.map withoutTrivia) =
      standard.hasVariableNamed scope := by
    funext name
    rw [hasVariableNamed, variableNamed?_withoutTrivia, Option.isSome_map, hasVariableNamed]
  simp only [answers, allOfClass_withoutTrivia, firstOfClass?_withoutTrivia,
    lastOfClass?_withoutTrivia, hhas, classLikes_withoutTrivia, firstNamedClassLike?_withoutTrivia,
    descendantNamed?_withoutTrivia, hnamed, variableNamed?_withoutTrivia, hvariable,
    map_position_option, map_position_list]

end Finder

namespace Node

variable {r s : Node}

/-- The root of the code `$x=1;$x;`. -/
def denseCode : Node where
  kind := .root
  children := [
    .node .exprStmt [.node .assign [.node .var [.token .varName "$x"], .token .equals "=",
      .node .literal [.token .intNumber "1"]], .token .semicolon ";"],
    .node .exprStmt [.node .var [.token .varName "$x"], .token .semicolon ";"]]
  path := []

/-- The root of the same code with a comment on a line of its own, another
one inside the assignment, and spaces. -/
def commentedCode : Node where
  kind := .root
  children := [.token .comment "// Counts.", .token .newline "\n",
    .node .exprStmt [.node .assign [.node .var [.token .comment "/* x */", .token .varName "$x"],
      .token .whitespace " ", .token .equals "=", .token .whitespace " ",
      .node .literal [.token .intNumber "1"]], .token .semicolon ";", .token .newline "\n"],
    .node .exprStmt [.node .var [.token .varName "$x"], .token .whitespace " ",
      .token .semicolon ";"]]
  path := []

end Node

end Syntax

end TypeScribe

import TypeScribe.Syntax.Tree
/-!
# Comparing code

Two trees are the same code if they hold the same kinds in the same order
from left to right, nodes before what they hold, with the same token
texts, once everything of a trivia kind is left out. `Tree.significant`
is the sequence that is compared.
-/

namespace TypeScribe

namespace Syntax

namespace Tree

mutual

/-- The kinds in the tree, each node before its children and each token
with its text; trivia are left out. -/
def significant : Tree → List (Kind × Option String)
  | token k s => if k.isTrivia then [] else [(k, some s)]
  | node k cs => if k.isTrivia then significantOfAll cs else (k, none) :: significantOfAll cs

/-- The same for several trees in a row. -/
def significantOfAll : List Tree → List (Kind × Option String)
  | [] => []
  | t :: ts => t.significant ++ significantOfAll ts

end

/-- Whether two trees are the same code. -/
def sameCode (a b : Tree) : Bool := a.significant == b.significant

/-- Whether two trees are of one kind and read the same character by
character. -/
def sameText (a b : Tree) : Bool := a.kind == b.kind && a.text == b.text

theorem significantOfAll_eq_flatMap (ts : List Tree) :
    significantOfAll ts = ts.flatMap significant := by
  induction ts with
  | nil => rfl
  | cons t ts ih => rw [significantOfAll, ih, List.flatMap_cons]

@[simp] theorem sameCode_iff {a b : Tree} :
    a.sameCode b = true ↔ a.significant = b.significant := by
  simp [sameCode]

/-- **Being the same code is an equivalence.** -/
theorem sameCode_equivalence : Equivalence fun a b : Tree => a.sameCode b = true where
  refl _ := sameCode_iff.2 rfl
  symm h := sameCode_iff.2 (sameCode_iff.1 h).symm
  trans h h' := sameCode_iff.2 ((sameCode_iff.1 h).trans (sameCode_iff.1 h'))

end Tree

end Syntax

end TypeScribe

import TypeScribe.Syntax.Tree
/-!
# Dumps

A dump shows the nodes of a tree, one to a line, indented by two spaces
for each node they lie in. After a node's kind come those of its own
tokens that tell nodes of one kind apart: names, numbers, strings and
operators. Punctuation, keywords and trivia are left out.
-/

namespace TypeScribe

namespace Syntax

/-- Whether a dump shows the tokens of a kind. -/
def Kind.isShown : Kind → Bool
  | ident | varName | intNumber | stringLiteral | operator | question => true
  | _ => false

namespace Tree

/-- The texts of the shown tokens among a node's children. -/
def shownTexts (cs : List Tree) : List String :=
  cs.filterMap fun
    | token k s => if k.isShown then some s else none
    | node _ _ => none

/-- The line for a node of kind `k` with the given children. -/
def dumpLine (depth : Nat) (k : Kind) (cs : List Tree) : String :=
  String.ofList (List.replicate (2 * depth) ' ') ++ k.label ++
    String.join ((shownTexts cs).map (" " ++ ·))

mutual

/-- The lines for a tree at the given depth. -/
def dumpLines (depth : Nat) : Tree → List String
  | token _ _ => []
  | node k cs => dumpLine depth k cs :: dumpLinesOfAll (depth + 1) cs

/-- The lines for several trees at the given depth. -/
def dumpLinesOfAll (depth : Nat) : List Tree → List String
  | [] => []
  | t :: ts => t.dumpLines depth ++ dumpLinesOfAll depth ts

end

/-- The dump of a tree; every line is ended by a line feed. -/
def dump (t : Tree) : String :=
  String.join ((t.dumpLines 0).map (· ++ "\n"))

mutual

/-- **A dump has one line per node.** -/
theorem length_dumpLines (depth : Nat) : ∀ t : Tree, (t.dumpLines depth).length = t.nodeCount
  | token _ _ => rfl
  | node k cs => by
    rw [dumpLines, nodeCount, List.length_cons, length_dumpLinesOfAll (depth + 1) cs]

/-- And so has the dump of several trees. -/
theorem length_dumpLinesOfAll (depth : Nat) :
    ∀ ts : List Tree, (dumpLinesOfAll depth ts).length = nodeCountOfAll ts
  | [] => rfl
  | t :: ts => by
    rw [dumpLinesOfAll, nodeCountOfAll, List.length_append, length_dumpLines depth t,
      length_dumpLinesOfAll depth ts]

end

end Tree

end Syntax

end TypeScribe

import TypeScribe.Syntax.Kind
/-!
# Syntax trees

A syntax tree keeps every character of the code: its leaves are tokens,
white space and comments among them, and its text is the texts of the
tokens in order. Nodes have a kind and children, which may be nodes and
tokens in any mixture; nothing here asks for the shape a parser would
produce.
-/

namespace TypeScribe

namespace Syntax

/-- A syntax tree, or a single token. -/
inductive Tree
  | token (kind : Kind) (text : String)
  | node (kind : Kind) (children : List Tree)
deriving Repr

namespace Tree

instance : Inhabited Tree := ⟨token .error ""⟩

/-- The kind of the token or of the outermost node. -/
def kind : Tree → Kind
  | token k _ => k
  | node k _ => k

/-- **What passes from the children to a node holds of every tree** whose
tokens have it. -/
theorem induction {P : Tree → Prop} (token : ∀ k s, P (token k s))
    (node : ∀ k cs, (∀ c ∈ cs, P c) → P (node k cs)) : ∀ t : Tree, P t
  | .token k s => token k s
  | .node k cs => node k cs fun c _ => induction token node c
termination_by t => t
decreasing_by
  have := List.sizeOf_lt_of_mem ‹_›
  simp
  omega

/-! ## Tokens and text -/

mutual

/-- The tokens from left to right, each with its kind. -/
def tokens : Tree → List (Kind × String)
  | token k s => [(k, s)]
  | node _ cs => tokensOfAll cs

/-- The tokens of several trees in a row. -/
def tokensOfAll : List Tree → List (Kind × String)
  | [] => []
  | t :: ts => t.tokens ++ tokensOfAll ts

end

/-- The code the tree stands for. -/
def text (t : Tree) : String :=
  String.join (t.tokens.map Prod.snd)

/-- The length of the code in UTF-8. -/
def byteLength (t : Tree) : Nat :=
  t.text.utf8ByteSize

theorem tokensOfAll_eq_flatMap (ts : List Tree) : tokensOfAll ts = ts.flatMap tokens := by
  induction ts with
  | nil => rfl
  | cons t ts ih => rw [tokensOfAll, ih, List.flatMap_cons]

theorem tokens_node (k : Kind) (cs : List Tree) : (node k cs).tokens = cs.flatMap tokens := by
  rw [tokens, tokensOfAll_eq_flatMap]

theorem text_token (k : Kind) (s : String) : (token k s).text = s := by
  simp [text, tokens, String.join]

/-- **A node's code is its children's code in a row.** -/
theorem text_node (k : Kind) (cs : List Tree) :
    (node k cs).text = String.join (cs.map text) := by
  apply String.toList_inj.1
  simp only [text, tokens_node, String.toList_join, List.flatMap_map, List.flatMap_assoc]

/-! ## Counting nodes -/

mutual

/-- How many nodes the tree has, itself included; tokens do not count. -/
def nodeCount : Tree → Nat
  | token _ _ => 0
  | node _ cs => nodeCountOfAll cs + 1

/-- How many nodes several trees have together. -/
def nodeCountOfAll : List Tree → Nat
  | [] => 0
  | t :: ts => t.nodeCount + nodeCountOfAll ts

end

/-- Trees side by side are counted one after the other. -/
theorem nodeCountOfAll_append (ts us : List Tree) :
    nodeCountOfAll (ts ++ us) = nodeCountOfAll ts + nodeCountOfAll us := by
  induction ts with
  | nil => rw [List.nil_append, nodeCountOfAll, Nat.zero_add]
  | cons t ts ih => rw [List.cons_append, nodeCountOfAll, nodeCountOfAll, ih, Nat.add_assoc]

/-! ## Trees that can be read -/

mutual

/-- Whether no token and no node of the tree has the kind that only bounds
the numbering. Such a kind can be written into a tree but not read back
from it. -/
def isReadable : Tree → Bool
  | token k _ => k != .sentinel
  | node k cs => k != .sentinel && areReadable cs

/-- Whether several trees can be read. -/
def areReadable : List Tree → Bool
  | [] => true
  | t :: ts => t.isReadable && areReadable ts

end

end Tree

end Syntax

end TypeScribe

import TypeScribe.Syntax.Tree
/-!
# Building trees step by step

A tree is built by a program of three kinds of steps: emit a token, enter
a node, leave the innermost node. A `Builder` is the state between two
steps, the nodes that are open and what each holds so far. A program that
leaves as many nodes as it enters, and none before it was entered, runs to
an end on every builder and appends the trees it emits to the innermost
open node (`run_append`, `run_node`).
-/

namespace TypeScribe

namespace Syntax

/-- One step of a program. -/
inductive Step
  /-- Emit a token. -/
  | token (kind : Kind) (text : String)
  /-- Begin a node; what follows goes into it. -/
  | enter (kind : Kind)
  /-- End the innermost open node. -/
  | leave
deriving DecidableEq, Repr

/-- Steps to be taken in order. -/
abbrev Program := List Step

/-- The trees under construction. -/
structure Builder where
  /-- What the innermost open node holds so far, latest first. -/
  emitted : List Tree
  /-- The open nodes, innermost first, each with what was emitted before
  it at its own level. -/
  opened : List (Kind × List Tree)
deriving Repr

namespace Builder

/-- Nothing open and nothing emitted. -/
def empty : Builder := ⟨[], []⟩

/-- Takes one step. There must be an open node to be left. -/
def step (b : Builder) : Step → Option Builder
  | .token k s => some ⟨.token k s :: b.emitted, b.opened⟩
  | .enter k => some ⟨[], (k, b.emitted) :: b.opened⟩
  | .leave =>
    match b.opened with
    | [] => none
    | (k, outer) :: opened => some ⟨.node k b.emitted.reverse :: outer, opened⟩

/-- Takes the steps of a program in order. -/
def run (b : Builder) : Program → Option Builder
  | [] => some b
  | s :: p => (b.step s).bind (run · p)

/-- The tree that was built: exactly one node, and it is closed. -/
def finish? (b : Builder) : Option Tree :=
  match b.emitted, b.opened with
  | [.node k cs], [] => some (.node k cs)
  | _, _ => none

/-- The builder with more trees in its innermost open node. -/
def append (b : Builder) (ts : List Tree) : Builder :=
  ⟨ts.reverse ++ b.emitted, b.opened⟩

/-- Programs run one after the other. -/
theorem run_append (b : Builder) (p q : Program) :
    b.run (p ++ q) = (b.run p).bind (run · q) := by
  induction p generalizing b with
  | nil => rfl
  | cons s p ih =>
    simp only [List.cons_append, run]
    cases b.step s with
    | none => rfl
    | some b => exact ih b

end Builder

namespace Program

/-- The tree a program builds from nothing. -/
def build? (p : Program) : Option Tree :=
  (Builder.empty.run p).bind Builder.finish?

/-- A program that emits the trees `ts` wherever it is run. -/
def Emits (p : Program) (ts : List Tree) : Prop :=
  ∀ b : Builder, b.run p = some (b.append ts)

/-- Emits one token. -/
def token (k : Kind) (s : String) : Program := [.token k s]

/-- Emits one node with what `body` emits. -/
def node (k : Kind) (body : Program) : Program := .enter k :: body ++ [.leave]

mutual

/-- Emits a given tree. -/
def ofTree : Tree → Program
  | .token k s => token k s
  | .node k cs => node k (ofTrees cs)

/-- Emits given trees. -/
def ofTrees : List Tree → Program
  | [] => []
  | t :: ts => ofTree t ++ ofTrees ts

end

/-! ## What programs emit -/

theorem emits_nil : Emits [] [] := by
  intro b
  simp [Builder.run, Builder.append]

theorem emits_token (k : Kind) (s : String) : Emits (token k s) [.token k s] := by
  intro b
  simp [token, Builder.run, Builder.step, Builder.append]

theorem Emits.append {p q : Program} {ts us : List Tree} (hp : Emits p ts) (hq : Emits q us) :
    Emits (p ++ q) (ts ++ us) := by
  intro b
  rw [Builder.run_append, hp b, Option.bind_some, hq (b.append ts)]
  simp [Builder.append]

/-- **A node program adds exactly one node**, which holds what its body
emits. -/
theorem Emits.node {p : Program} {ts : List Tree} (hp : Emits p ts) (k : Kind) :
    Emits (node k p) [.node k ts] := by
  intro b
  have := hp ⟨[], (k, b.emitted) :: b.opened⟩
  simp [Program.node, Builder.run, Builder.step, Builder.run_append, this, Builder.append]

mutual

/-- **A tree's program emits the tree.** -/
theorem emits_ofTree : ∀ t : Tree, Emits (ofTree t) [t]
  | .token k s => emits_token k s
  | .node k cs => (emits_ofTrees cs).node k

theorem emits_ofTrees : ∀ ts : List Tree, Emits (ofTrees ts) ts
  | [] => emits_nil
  | t :: ts => (emits_ofTree t).append (emits_ofTrees ts)

end

/-- A program that emits one node builds it. -/
theorem build?_of_emits {p : Program} {k : Kind} {cs : List Tree}
    (h : Emits p [.node k cs]) : build? p = some (.node k cs) := by
  rw [build?, h .empty]
  simp [Builder.append, Builder.empty, Builder.finish?]

end Program

end Syntax

end TypeScribe

import TypeScribe.Proofs.Syntax.Containment
import TypeScribe.Proofs.Syntax.Script
import TypeScribe.Proofs.Text.Cut
/-!
# The extent of a node

Where a node begins is reckoned from what stands before it and before all
nodes it lies in, in bytes. So what is cut out of the code of the whole
tree from where a node begins to where it ends is the node's own code
(`Node.cut?_of_mem_descendants`), and what a node holds, tokens among it,
fills the node from end to end (`Node.tiles_elements`). A tree that is
built from a script has the tokens of the script as its code, in the order
in which they are emitted (`geometry_of_built`).
-/

namespace TypeScribe

namespace Syntax

/-! ## Bytes -/

namespace Tree

/-- The length of the code of several trees in a row. -/
def byteLengthOfAll (ts : List Tree) : Nat :=
  ts.foldr (fun t length => t.byteLength + length) 0

theorem byteLengthOfAll_nil : byteLengthOfAll [] = 0 := rfl

theorem byteLengthOfAll_cons (t : Tree) (ts : List Tree) :
    byteLengthOfAll (t :: ts) = t.byteLength + byteLengthOfAll ts := rfl

theorem byteLengthOfAll_append (ts us : List Tree) :
    byteLengthOfAll (ts ++ us) = byteLengthOfAll ts + byteLengthOfAll us := by
  induction ts with
  | nil => rw [List.nil_append, byteLengthOfAll_nil, Nat.zero_add]
  | cons t ts ih =>
    rw [List.cons_append, byteLengthOfAll_cons, byteLengthOfAll_cons, ih, Nat.add_assoc]

/-- The code of trees in a row is as long as they are together. -/
theorem utf8ByteSize_join (ts : List Tree) :
    (String.join (ts.map text)).utf8ByteSize = byteLengthOfAll ts := by
  induction ts with
  | nil => rfl
  | cons t ts ih =>
    rw [List.map_cons, String.join_cons, String.utf8ByteSize_append, ih, byteLengthOfAll_cons,
      byteLength]

theorem byteLength_node (k : Kind) (cs : List Tree) :
    (node k cs).byteLength = byteLengthOfAll cs := by
  rw [byteLength, text_node, utf8ByteSize_join]

end Tree

/-! ## Elements -/

/-- Where a node's or a token's code begins whose way up to the root is
given. -/
def startAt (path : List Crumb) : Nat := Tree.byteLengthOfAll (path.flatMap Crumb.before)

theorem startAt_cons (c : Crumb) (path : List Crumb) :
    startAt (c :: path) = Tree.byteLengthOfAll c.before + startAt path := by
  rw [startAt, List.flatMap_cons, Tree.byteLengthOfAll_append, startAt]

/-- A token or a node in its place. -/
structure Element where
  /-- The token or the node without its surroundings. -/
  tree : Tree
  /-- The way up to the root, nearest first. -/
  path : List Crumb

namespace Element

/-- Where the element's code begins, in UTF-8 from the start of the
tree. -/
def start (e : Element) : Nat := startAt e.path

/-- Where the element's code ends. -/
def stop (e : Element) : Nat := e.start + e.tree.byteLength

/-- From where to where the element's code goes. -/
def range (e : Element) : Nat × Nat := (e.start, e.stop)

/-- The element as a node, if it is one. -/
def node? (e : Element) : Option Node :=
  match e.tree with
  | .token _ _ => none
  | .node k cs => some ⟨k, cs, e.path⟩

end Element

/-- Each range begins where the one before it ends, the first at `start`,
and the last ends at `stop`. -/
def Tiles (start stop : Nat) : List (Nat × Nat) → Prop
  | [] => start = stop
  | range :: ranges => range.1 = start ∧ start ≤ range.2 ∧ Tiles range.2 stop ranges

namespace Node

variable {n m : Node} {e : Element} {k : Kind} {path : List Crumb} {before after : List Tree}

theorem start_eq_startAt (n : Node) : n.start = startAt n.path := rfl

/-- The elements among the trees that follow `before` below a node of kind
`k` at `path`. -/
def elementsAmong (k : Kind) (path : List Crumb) (before : List Tree) :
    List Tree → List Element
  | [] => []
  | t :: after => ⟨t, ⟨k, before, after⟩ :: path⟩ :: elementsAmong k path (t :: before) after

/-- What the node holds directly, tokens and nodes in order. -/
def elements (n : Node) : List Element := elementsAmong n.kind n.path [] n.children

theorem map_tree_elementsAmong (k : Kind) (path : List Crumb) (before after : List Tree) :
    (elementsAmong k path before after).map Element.tree = after := by
  induction after generalizing before with
  | nil => rfl
  | cons t after ih => rw [elementsAmong, List.map_cons, ih]

/-- **The elements are what the node holds**, each once. -/
theorem map_tree_elements (n : Node) : n.elements.map Element.tree = n.children :=
  map_tree_elementsAmong n.kind n.path [] n.children

theorem filterMap_node?_elementsAmong (k : Kind) (path : List Crumb) (before after : List Tree) :
    (elementsAmong k path before after).filterMap Element.node? =
      rightwards k path before after := by
  induction after generalizing before with
  | nil => rfl
  | cons t after ih =>
    cases t with
    | token l s =>
      rw [elementsAmong, List.filterMap_cons_none rfl, ih, rightwards]
    | node l cs =>
      have hnode : Element.node? ⟨.node l cs, ⟨k, before, after⟩ :: path⟩ =
        some ⟨l, cs, ⟨k, before, after⟩ :: path⟩ := rfl
      rw [elementsAmong, List.filterMap_cons_some hnode, ih, rightwards]

/-- **The nodes among the elements are the children.** -/
theorem filterMap_node?_elements (n : Node) : n.elements.filterMap Element.node? = n.childNodes :=
  filterMap_node?_elementsAmong n.kind n.path [] n.children

/-- **What a row of trees takes up** is taken up by its elements, without a
gap and without an overlap. -/
theorem tiles_elementsAmong (k : Kind) (path : List Crumb) (before after : List Tree) :
    Tiles (Tree.byteLengthOfAll before + startAt path)
      (Tree.byteLengthOfAll before + startAt path + Tree.byteLengthOfAll after)
      ((elementsAmong k path before after).map Element.range) := by
  induction after generalizing before with
  | nil => rfl
  | cons t after ih =>
    have hstart : startAt (⟨k, before, after⟩ :: path) =
      Tree.byteLengthOfAll before + startAt path := startAt_cons _ _
    have hstop : startAt (⟨k, before, after⟩ :: path) + t.byteLength =
        Tree.byteLengthOfAll (t :: before) + startAt path := by
      rw [Tree.byteLengthOfAll_cons]
      omega
    have hend : Tree.byteLengthOfAll before + startAt path + Tree.byteLengthOfAll (t :: after) =
        Tree.byteLengthOfAll (t :: before) + startAt path + Tree.byteLengthOfAll after := by
      rw [Tree.byteLengthOfAll_cons, Tree.byteLengthOfAll_cons]
      omega
    -- the others begin where the first one ends
    rw [elementsAmong, List.map_cons, hend]
    refine ⟨hstart, hstart ▸ Nat.le_add_right _ _, ?_⟩
    change Tiles (startAt (⟨k, before, after⟩ :: path) + t.byteLength) _ _
    rw [hstop]
    exact ih (t :: before)

/-- **What a node holds fills it from end to end.** -/
theorem tiles_elements (n : Node) : Tiles n.start n.stop (n.elements.map Element.range) := by
  have htiles := tiles_elementsAmong n.kind n.path [] n.children
  rwa [Tree.byteLengthOfAll_nil, Nat.zero_add, ← start_eq_startAt,
    ← Tree.byteLength_node n.kind] at htiles

theorem exists_of_mem_elementsAmong (he : e ∈ elementsAmong k path before after) :
    ∃ skipped rest, after = skipped ++ e.tree :: rest ∧
      e.start = Tree.byteLengthOfAll skipped + (Tree.byteLengthOfAll before + startAt path) := by
  induction after generalizing before with
  | nil => cases he
  | cons t after ih =>
    rw [elementsAmong, List.mem_cons] at he
    rcases he with rfl | he
    · refine ⟨[], after, rfl, ?_⟩
      rw [Element.start, startAt_cons, Tree.byteLengthOfAll_nil, Nat.zero_add]
    · obtain ⟨skipped, rest, rfl, hstart⟩ := ih he
      refine ⟨t :: skipped, rest, rfl, ?_⟩
      rw [Tree.byteLengthOfAll_cons] at hstart ⊢
      omega

/-- An element's code stands in the node's, after that of the elements
before it. -/
theorem standsAt_of_mem_elements (he : e ∈ n.elements) :
    ∃ i, e.start = n.start + i ∧ Text.StandsAt e.tree.text n.tree.text i := by
  obtain ⟨skipped, rest, hchildren, hstart⟩ := exists_of_mem_elementsAmong he
  refine ⟨Tree.byteLengthOfAll skipped, ?_, String.join (skipped.map Tree.text),
    String.join (rest.map Tree.text), ?_, Tree.utf8ByteSize_join skipped⟩
  · rw [start_eq_startAt]
    rw [Tree.byteLengthOfAll_nil] at hstart
    omega
  · rw [tree, Tree.text_node, hchildren, List.map_append, String.join_append, List.map_cons,
      String.join_cons, String.append_assoc]

theorem exists_element_of_mem_childNodes (hm : m ∈ n.childNodes) :
    ∃ e ∈ n.elements, e.tree = m.tree ∧ e.start = m.start := by
  rw [← filterMap_node?_elements, List.mem_filterMap] at hm
  obtain ⟨⟨t, path⟩, he, hnode⟩ := hm
  cases t with
  | token k s => cases hnode
  | node k cs =>
    cases hnode
    exact ⟨_, he, rfl, rfl⟩

/-- **What lies in a node stands in its code**, as far from the beginning
as the positions say. -/
theorem standsAt_of_liesIn (h : m.LiesIn n) :
    ∃ i, m.start = n.start + i ∧ Text.StandsAt m.tree.text n.tree.text i := by
  induction h with
  | refl => exact ⟨0, rfl, Text.standsAt_self _⟩
  | @tail a n _ hchild ih =>
    obtain ⟨i, hi, hstands⟩ := ih
    obtain ⟨e, he, htree, hstart⟩ := exists_element_of_mem_childNodes hchild
    obtain ⟨j, hj, hwithin⟩ := standsAt_of_mem_elements he
    rw [htree] at hwithin
    exact ⟨j + i, by omega, hstands.trans hwithin⟩

/-- **A node's range cuts the node's own code out of the code of the
tree.** -/
theorem cut?_of_mem_descendants {cs : List Tree} (hn : n ∈ (⟨k, cs, []⟩ : Node).descendants) :
    Text.cut? (Tree.node k cs).text n.start n.stop = some n.tree.text := by
  obtain ⟨i, hstart, hstands⟩ := standsAt_of_liesIn (mem_descendants_iff.1 hn)
  have hroot : (⟨k, cs, []⟩ : Node).start = 0 := rfl
  have hi : n.start = i := by omega
  rw [stop, Tree.byteLength, hi]
  exact hstands.cut?_eq

end Node

/-! ## Tokens in the order of emission -/

/-- The token a step emits. -/
def Step.token? : Step → Option (Kind × String)
  | .token k s => some (k, s)
  | _ => none

/-- The tokens a program emits, in order. -/
def Program.tokens (p : Program) : List (Kind × String) := p.filterMap Step.token?

namespace Builder

variable {b b' : Builder} {s : Step} {p : Program}

/-- The tokens of the trees under construction. -/
def tokens (emitted : List Tree) : List (Kind × List Tree) → List (Kind × String)
  | [] => Tree.tokensOfAll emitted.reverse
  | (_, outer) :: opened => tokens outer opened ++ Tree.tokensOfAll emitted.reverse

theorem tokens_cons (t : Tree) (emitted : List Tree) (opened : List (Kind × List Tree)) :
    tokens (t :: emitted) opened = tokens emitted opened ++ t.tokens := by
  cases opened <;> simp [tokens, Tree.tokensOfAll_eq_flatMap]

/-- **A step adds its token at the end**, and to enter or to leave a node
moves none. -/
theorem tokens_step (h : b.step s = some b') :
    tokens b'.emitted b'.opened = tokens b.emitted b.opened ++ s.token?.toList := by
  obtain ⟨emitted, opened⟩ := b
  cases s with
  | token k text =>
    cases h
    exact tokens_cons ..
  | enter k =>
    cases h
    simp [tokens, Tree.tokensOfAll, Step.token?]
  | leave =>
    cases opened with
    | nil => cases h
    | cons frame opened =>
      cases h
      rw [tokens_cons, tokens, Tree.tokens]
      exact (List.append_nil _).symm

theorem tokens_run (h : b.run p = some b') :
    tokens b'.emitted b'.opened = tokens b.emitted b.opened ++ p.tokens := by
  induction p generalizing b with
  | nil =>
    cases h
    exact (List.append_nil _).symm
  | cons s p ih =>
    obtain ⟨next, hstep, hrest⟩ := Option.bind_eq_some_iff.1 h
    have htokens : Program.tokens (s :: p) = s.token?.toList ++ Program.tokens p := by
      cases s <;> rfl
    rw [ih hrest, tokens_step hstep, htokens, List.append_assoc]

end Builder

/-- **A tree that was built has the tokens of the program**, in the order
in which they were emitted. -/
theorem Program.tokens_of_build? {p : Program} {k : Kind} {cs : List Tree}
    (h : p.build? = some (.node k cs)) : (Tree.node k cs).tokens = p.tokens := by
  obtain ⟨last, hrun, hfinish⟩ := Option.bind_eq_some_iff.1 h
  have htokens := Builder.tokens_run hrun
  rw [Builder.eq_of_finish? hfinish] at htokens
  simpa [Builder.tokens, Builder.empty, Tree.tokensOfAll] using htokens

/-! ## Built trees -/

/-- **The geometry of what scripts build.** A command whose parts are
balanced, as those of all commands in a balanced script are, runs to its
end on every builder and leaves the stack of open nodes as it found it; a
command for a node adds exactly this node to the innermost open one. A
balanced script in a node of its own builds a tree. The code of a tree that
a balanced script builds is the tokens of the script in the order of
emission. In it the range of every node cuts out the node's own code. The
elements of a node are its tokens and nodes together, the nodes among them
are its children, and their ranges follow one another from its beginning to
its end. -/
theorem geometry_of_built {p : Script} (hp : p.IsBalanced) :
    (∀ c : Command, (∀ part ∈ c.parts, part.IsBalanced) → ∀ b : Builder,
      ∃ b', b.run c.program = some b' ∧ b'.opened = b.opened ∧
        ∃ ts, b'.emitted = ts ++ b.emitted ∧
          (c.makesNode = true → ∃ k cs, ts = [.node k cs])) ∧
    (∀ k, ∃ cs, (Script.call (.node k p) .done).program.build? = some (.node k cs)) ∧
    ∀ k cs, p.program.build? = some (.node k cs) →
      (Tree.node k cs).text = String.join (p.program.tokens.map Prod.snd) ∧
      ∀ n ∈ (⟨k, cs, []⟩ : Node).descendants,
        Text.cut? (Tree.node k cs).text n.start n.stop = some n.tree.text ∧
        n.elements.map Element.tree = n.children ∧
        n.elements.filterMap Element.node? = n.childNodes ∧
        Tiles n.start n.stop (n.elements.map Element.range) := by
  refine ⟨fun c hparts b => ?_, fun k => ?_, fun k cs hbuild => ⟨?_, fun n hn => ?_⟩⟩
  · obtain ⟨ts, hemits, hnode⟩ := Command.emits_program hparts
    refine ⟨b.append ts, hemits b, rfl, ts.reverse, rfl, fun h => ?_⟩
    obtain ⟨k, cs, rfl⟩ := hnode h
    exact ⟨k, cs, rfl⟩
  · obtain ⟨cs, hcs⟩ := Program.isBalanced_iff.1 hp.program
    refine ⟨cs, Program.build?_of_emits ?_⟩
    rw [Script.program, Script.program, List.append_nil, Command.program]
    exact hcs.node k
  · rw [Tree.text, Program.tokens_of_build? hbuild]
  · exact ⟨Node.cut?_of_mem_descendants hn, n.map_tree_elements, n.filterMap_node?_elements,
      n.tiles_elements⟩

/-- A comment with accents and a call without a name, entered and left by
hand. -/
def accents : Script :=
  .enter .root (.call (.comment "/* été */") (.call (.exprStmt (.call (.funcCall ""
    (.enter .arg (.call (.string "où") (.leave .done)))) .done)) (.leave .done)))

theorem isBalanced_accents : accents.IsBalanced := by
  have hargument : Script.Leads 0 (.enter .arg (.call (.string "où") (.leave .done))) 0 :=
    .enter _ (.call (by simp [Command.parts]) (.leave (.done 0)))
  have hcall : Script.Leads 0 (.call (.funcCall ""
      (.enter .arg (.call (.string "où") (.leave .done)))) .done) 0 :=
    .call (by simpa [Command.parts] using hargument) (.done 0)
  exact .enter _ (.call (by simp [Command.parts])
    (.call (by simpa [Command.parts] using hcall) (.leave (.done 0))))

/-- What the script puts into the root. -/
def accentedCode : List Tree :=
  [.token .comment "/* été */", .node .exprStmt [.node .funcCall [.node .name [.token .ident ""],
    .node .argList [.token .parenOpen "(",
      .node .arg [.node .literal [.token .stringLiteral "'où'"]], .token .parenClose ")"]],
    .token .semicolon ";", .token .newline "\n"]]

theorem build?_accents : accents.program.build? = some (.node .root accentedCode) := rfl

/-- The argument is the sixth node. What is before it has ten characters
and twelve bytes. -/
theorem geometry_of_built_accents :
    accents.IsBalanced ∧ accents.program.build? = some (.node .root accentedCode) ∧
      (Tree.node .root accentedCode).text = "/* été */('où');\n" ∧
      ∃ n ∈ (⟨.root, accentedCode, []⟩ : Node).descendants, n.position = 5 ∧
        Text.cut? (Tree.node .root accentedCode).text 12 17 = some "'où'" ∧
        Tiles 12 17 (n.elements.map Element.range) := by
  obtain ⟨-, -, hbuilt⟩ := geometry_of_built isBalanced_accents
  obtain ⟨htext, hnodes⟩ := hbuilt .root accentedCode build?_accents
  have hsixth : (⟨.root, accentedCode, []⟩ : Node).descendants[5]? = some _ := rfl
  obtain ⟨hcut, -, -, htiles⟩ := hnodes _ (List.mem_of_getElem? hsixth)
  exact ⟨isBalanced_accents, build?_accents, htext, _, List.mem_of_getElem? hsixth, rfl, hcut,
    htiles⟩

end Syntax

end TypeScribe

import TypeScribe.Proofs.Syntax.Placement
import TypeScribe.Proofs.TypeHint.Meaning
/-!
# Hints that are built

Three recursions go over a hint: one writes it, one emits it step by step
into a tree, and one reads a type off the tree. They agree. The tree that
is built has the code that is written (`text_tree`) and states what the
hint means (`statedTy?_tree`), and so it does within any tree that the
hint was built into, at the node where the hint stands
(`exists_node_of_built`). Nothing is asked of the hint. It may be a union
without members, a question mark before a question mark, or the empty
name.

What a name means is a matter of a table (`Ty.builtins`): a name that has
an entry, in whatever case, is a built-in type, and any other is a class.
-/

namespace TypeScribe

open Syntax (Kind Node Program Tree)

namespace Ty

/-- The names of built-in types, in small letters. -/
def builtins : List (String × Ty) :=
  [("int", scalar .int), ("integer", scalar .int), ("float", scalar .float),
    ("double", scalar .float), ("string", scalar .string), ("bool", scalar .bool),
    ("boolean", scalar .bool), ("array", array mixed), ("iterable", iterable mixed),
    ("callable", callable), ("object", anyObject), ("void", void), ("mixed", mixed),
    ("null", null), ("self", object (.selfRef "self")), ("static", staticRef "static")]

variable {s : String} {t : Ty}

theorem ofName_of_mem (h : (Text.lower s, t) ∈ builtins) : ofName s = t := by
  simp only [builtins, List.mem_cons, List.not_mem_nil, or_false, Prod.mk.injEq] at h
  rcases h with h | h | h | h | h | h | h | h | h | h | h | h | h | h | h | h <;>
    simp [ofName, Scalar.ofName?, h.1, h.2]

theorem ofName_of_not_mem (h : Text.lower s ∉ builtins.map Prod.fst) :
    ofName s = object (.named s) := by
  simp only [builtins, List.map_cons, List.map_nil, List.mem_cons, List.not_mem_nil, or_false,
    not_or] at h
  have hscalar : Scalar.ofName? s = none := by simp [Scalar.ofName?, h]
  simp [ofName, hscalar, h]

/-- **A name means what the table says**, and a class if the table says
nothing. -/
theorem ofName_eq_iff : ofName s = t ↔ (Text.lower s, t) ∈ builtins ∨
    Text.lower s ∉ builtins.map Prod.fst ∧ t = object (.named s) := by
  by_cases hname : Text.lower s ∈ builtins.map Prod.fst
  · obtain ⟨entry, hentry, heq⟩ := List.mem_map.1 hname
    have hmem : (Text.lower s, entry.2) ∈ builtins := by rwa [← heq]
    constructor
    · rintro rfl
      exact .inl ((ofName_of_mem hmem).symm ▸ hmem)
    · rintro (h | ⟨hnot, -⟩)
      · exact ofName_of_mem h
      · exact absurd hname hnot
  · rw [ofName_of_not_mem hname]
    constructor
    · rintro rfl
      exact .inr ⟨hname, rfl⟩
    · rintro (h | ⟨-, rfl⟩)
      · exact absurd (List.mem_map_of_mem h) hname
      · rfl

end Ty

namespace TypeHint

/-! ## Building -/

mutual

/-- The steps that emit a hint. -/
def program : TypeHint → Program
  | name s => .node .typeName (.token .ident s)
  | rooted s => .node .fullyQualifiedName (.token .ident ("\\" ++ s))
  | nullable a => .node .nullableType (.token .question "?" ++ a.program)
  | union as => .node .unionType (memberPrograms as)

/-- The steps that emit members, with a bar before each but the first. -/
def memberPrograms : List TypeHint → Program
  | [] => []
  | [a] => a.program
  | a :: as => a.program ++ .token .pipe "|" ++ memberPrograms as

end

mutual

/-- The steps are those that emit the hint's tree. -/
theorem program_eq_ofTree : ∀ a : TypeHint, a.program = Program.ofTree a.tree
  | name s => rfl
  | rooted s => rfl
  | nullable a => by
    rw [program, program_eq_ofTree a]
    simp [tree, Program.ofTree, Program.ofTrees]
  | union as => by rw [program, memberPrograms_eq_ofTrees as, tree, Program.ofTree]

theorem memberPrograms_eq_ofTrees : ∀ as : List TypeHint,
    memberPrograms as = Program.ofTrees (memberTrees as)
  | [] => rfl
  | [a] => by
    rw [memberPrograms, program_eq_ofTree a]
    simp [memberTrees, Program.ofTrees]
  | a :: b :: as => by
    rw [memberPrograms, program_eq_ofTree a, memberPrograms_eq_ofTrees (b :: as)]
    · simp [memberTrees, Program.ofTrees, Program.ofTree]
    · simp

end

/-- **The steps emit the hint's tree**, wherever they are taken. -/
theorem emits_program (a : TypeHint) : a.program.Emits [a.tree] := by
  rw [program_eq_ofTree]
  exact Program.emits_ofTree a.tree

/-- A hint is built as a node around what its parts emit. -/
theorem exists_program_eq_node (a : TypeHint) :
    ∃ k body ts, a.program = .node k body ∧ Program.Emits body ts := by
  cases a with
  | name s => exact ⟨_, _, _, by rw [program], Program.emits_token _ _⟩
  | rooted s => exact ⟨_, _, _, by rw [program], Program.emits_token _ _⟩
  | nullable a =>
    exact ⟨_, _, _, by rw [program], (Program.emits_token _ _).append (emits_program a)⟩
  | union as =>
    have hmembers : (memberPrograms as).Emits (memberTrees as) := by
      rw [memberPrograms_eq_ofTrees]
      exact Program.emits_ofTrees _
    exact ⟨_, _, _, by rw [program], hmembers⟩

/-! ## Writing -/

mutual

/-- **The tree of a hint has the code of the hint.** -/
theorem text_tree : ∀ a : TypeHint, a.tree.text = a.text
  | name s => by
    rw [tree, Tree.text_node, text]
    simp [Tree.text_token, String.join]
  | rooted s => by
    rw [tree, Tree.text_node, text]
    simp [Tree.text_token, String.join]
  | nullable a => by
    rw [tree, Tree.text_node, text, ← text_tree a]
    simp [Tree.text_token, String.join]
  | union as => by
    rw [tree, Tree.text_node, text, join_memberTrees as]

/-- The bars between the members are those of the code. -/
theorem join_memberTrees : ∀ as : List TypeHint,
    String.join ((memberTrees as).map Tree.text) = "|".intercalate (texts as)
  | [] => rfl
  | [a] => by
    simp [memberTrees, texts, text_tree a, String.join]
  | a :: b :: as => by
    have hrest := join_memberTrees (b :: as)
    rw [memberTrees, texts, texts, String.intercalate_cons_cons, ← texts, ← hrest, ← text_tree a]
    · apply String.toList_inj.1
      simp [String.toList_join, Tree.text_token]
    · simp

end

/-! ## Reading -/

/-- A hint that was built into a tree can be read there. -/
theorem exists_node_of_built {a : TypeHint} {before after : Program} {k : Kind} {cs : List Tree}
    (h : (before ++ a.program ++ after).build? = some (.node k cs)) :
    ∃ n ∈ (⟨k, cs, []⟩ : Node).descendants,
      n.position = before.entered ∧ n.tree.text = a.text ∧ n.tree.statedTy? = some a.meaning := by
  obtain ⟨l, ds, htree⟩ := exists_tree_eq_node a
  have hemits : a.program.Emits [.node l ds] := htree ▸ emits_program a
  obtain ⟨n, hn, hposition, hsame⟩ := Program.exists_node_of_build? hemits h
  rw [← htree] at hsame
  exact ⟨n, hn, hposition, by rw [hsame, text_tree], by rw [hsame, statedTy?_tree]⟩

/-- **Building, writing and reading agree.** The steps of a hint build a
tree, which has the code of the hint and states what the hint means. Where
the steps are taken within a program for a larger tree, the node at the
place that was reached before them has that code and states that type. A
name means the built-in type it has an entry for, and otherwise the class
of that name; a rooted name means the class whatever it is called; a
question mark adds `null`, and a union is normalised. -/
theorem built_hints :
    (∀ a : TypeHint, a.program.build? = some a.tree ∧ a.tree.text = a.text ∧
      a.tree.statedTy? = some a.meaning) ∧
    (∀ (a : TypeHint) (before after : Program) (k : Kind) (cs : List Tree),
      (before ++ a.program ++ after).build? = some (.node k cs) →
      ∃ n ∈ (⟨k, cs, []⟩ : Node).descendants,
        n.position = before.entered ∧ n.tree.text = a.text ∧ n.tree.statedTy? = some a.meaning) ∧
    (∀ s t, (name s).meaning = t ↔ (Text.lower s, t) ∈ Ty.builtins ∨
      Text.lower s ∉ Ty.builtins.map Prod.fst ∧ t = .object (.named s)) ∧
    (∀ s, (rooted s).meaning = .object (.fullyQualified (Text.unrooted s))) ∧
    (∀ a, (nullable a).meaning = .nullable a.meaning) ∧
    ∀ as, (union as).meaning = .unionOf (as.map meaning) := by
  refine ⟨fun a => ⟨?_, text_tree a, statedTy?_tree a⟩,
    fun a before after k cs h => exists_node_of_built h, fun s t => Ty.ofName_eq_iff,
    fun s => rfl, fun a => rfl, fun as => ?_⟩
  · obtain ⟨k, cs, htree⟩ := exists_tree_eq_node a
    rw [htree]
    exact Program.build?_of_emits (htree ▸ emits_program a)
  · rw [meaning, meanings_eq_map]

/-- The hint in `function handle(?\Foo $item)`. Four nodes are entered
before it, the parameter it stands in last. -/
theorem built_hints_parameter :
    ∃ k cs, (Program.function "handle"
        (.param "item" (some (nullable (rooted "Foo")).program)) []).build? = some (.node k cs) ∧
      ∃ n ∈ (⟨k, cs, []⟩ : Node).descendants, n.position = 4 ∧ n.tree.text = "?\\Foo" ∧
        n.tree.statedTy? = some (.union [.object (.fullyQualified "Foo"), .null]) := by
  obtain ⟨-, hwithin, -⟩ := built_hints
  refine ⟨_, _, rfl, ?_⟩
  exact hwithin (nullable (rooted "Foo"))
    [.enter .functionDecl, .token .kwFunction "function", .token .whitespace " ",
      .enter .name, .token .ident "handle", .leave, .enter .paramList, .token .parenOpen "(",
      .enter .param]
    (Program.space ++ Program.var "item" ++ [.leave, .token .parenClose ")", .leave] ++
      Program.space ++ Program.block [] ++ Program.newline ++ [.leave]) _ _ rfl

end TypeHint

end TypeScribe

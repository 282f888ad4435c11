import TypeScribe.TypeHint.Tree
/-!
# What a hint means

`TypeHint.meaning` reads a hint as a type without a detour over its tree:
a name is the built-in type or the class of that name, a question mark
adds `null`, a union is the normalised union of its members.
`statedTy?_tree` says that the tree built for a hint states exactly this,
so every tree that was built from a hint can be read.
-/

namespace TypeScribe

namespace TypeHint

open Syntax (Tree)

mutual

/-- The type a hint stands for. -/
def meaning : TypeHint → Ty
  | name s => .ofName s
  | rooted s => .object (.fullyQualified (Text.unrooted s))
  | nullable a => .nullable a.meaning
  | union as => .unionOf (meanings as)

/-- The types several hints stand for. -/
def meanings : List TypeHint → List Ty
  | [] => []
  | a :: as => a.meaning :: meanings as

end

theorem meanings_eq_map (as : List TypeHint) : meanings as = as.map meaning := by
  induction as with
  | nil => rfl
  | cons a as ih => rw [meanings, ih, List.map_cons]

/-! ## Building and reading a tree -/

theorem exists_tree_eq_node (a : TypeHint) : ∃ k cs, a.tree = .node k cs := by
  cases a with
  | name s => exact ⟨_, _, rfl⟩
  | rooted s => exact ⟨_, _, rfl⟩
  | nullable b => exact ⟨_, _, rfl⟩
  | union as => exact ⟨_, _, rfl⟩

/-- The bars between the members of a union state nothing; the members
are read one after the other. -/
theorem allTys?_tree_cons {a : TypeHint} {t : Ty} (h : a.tree.statedTy? = some t)
    (ts : List Tree) : Tree.allTys? (a.tree :: ts) = (Tree.allTys? ts).map (t :: ·) := by
  obtain ⟨k, cs, hnode⟩ := exists_tree_eq_node a
  rw [hnode] at h ⊢
  rw [Tree.allTys?, h]
  cases Tree.allTys? ts <;> rfl

mutual

/-- **The tree of a hint states what the hint means.** -/
theorem statedTy?_tree : ∀ a : TypeHint, a.tree.statedTy? = some a.meaning
  | name s => rfl
  | rooted s => by
    have hfirst : Tree.firstToken? .ident [.token .ident ("\\" ++ s)] = some ("\\" ++ s) := rfl
    rw [tree, Tree.statedTy?, hfirst, Option.map_some, Text.unrooted_separator, meaning]
  | nullable a => by
    rw [tree, Tree.statedTy?, Tree.firstTy?, Tree.statedTy?_token, Tree.firstTy?, statedTy?_tree a]
    rfl
  | union as => by
    rw [tree, Tree.statedTy?, allTys?_memberTrees as, Option.map_some, meaning]

/-- The trees of the members state what the members mean. -/
theorem allTys?_memberTrees : ∀ as : List TypeHint,
    Tree.allTys? (memberTrees as) = some (meanings as)
  | [] => rfl
  | [a] => by
    rw [memberTrees, allTys?_tree_cons (statedTy?_tree a), Tree.allTys?]
    rfl
  | a :: b :: as => by
    rw [memberTrees, allTys?_tree_cons (statedTy?_tree a), Tree.allTys?,
      allTys?_memberTrees (b :: as)]
    · rfl
    · simp

end

end TypeHint

end TypeScribe

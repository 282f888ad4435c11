import TypeScribe.TypeHint.Basic
import TypeScribe.Syntax.Naming
import TypeScribe.Ty.Builtin
import TypeScribe.Ty.Normal
/-!
# Hints in a syntax tree

`TypeHint.tree` is the subtree that stands for a hint, and
`Tree.statedTy?` reads the type off any tree, whether or not it was built
from a hint. A nullable hint takes the first child that states a type; a
union states a type only if all nodes in it do.
-/

namespace TypeScribe

namespace TypeHint

open Syntax (Tree)

mutual

/-- The hint as a syntax tree. -/
def tree : TypeHint → Tree
  | name s => .node .typeName [.token .ident s]
  | rooted s => .node .fullyQualifiedName [.token .ident ("\\" ++ s)]
  | nullable a => .node .nullableType [.token .question "?", a.tree]
  | union as => .node .unionType (memberTrees as)

/-- The members of a union with bars between them. -/
def memberTrees : List TypeHint → List Tree
  | [] => []
  | [a] => [a.tree]
  | a :: as => a.tree :: .token .pipe "|" :: memberTrees as

end

end TypeHint

namespace Syntax

namespace Tree

mutual

/-- The type a tree states, if it is a hint. -/
def statedTy? : Tree → Option Ty
  | node .typeName cs => (firstToken? .ident cs).map Ty.ofName
  | node .fullyQualifiedName cs =>
    (firstToken? .ident cs).map fun s => .object (.fullyQualified (Text.unrooted s))
  | node .nullableType cs => (firstTy? cs).map Ty.nullable
  | node .unionType cs => (allTys? cs).map Ty.unionOf
  | _ => none

/-- The type of the first child that states one. -/
def firstTy? : List Tree → Option Ty
  | [] => none
  | t :: ts => t.statedTy? <|> firstTy? ts

/-- The types of all nodes among the children, if every one states one. -/
def allTys? : List Tree → Option (List Ty)
  | [] => some []
  | token _ _ :: ts => allTys? ts
  | node k cs :: ts => do
    let ty ← (node k cs).statedTy?
    let tys ← allTys? ts
    return ty :: tys

end

/-- A token states no type. -/
@[simp] theorem statedTy?_token (k : Kind) (s : String) : (token k s).statedTy? = none := by
  simp [statedTy?]

/-- What comes first is what is found first. -/
theorem firstTy?_eq_findSome? (ts : List Tree) : firstTy? ts = ts.findSome? statedTy? := by
  induction ts with
  | nil => rfl
  | cons t ts ih =>
    rw [firstTy?, ih, List.findSome?_cons]
    cases t.statedTy? <;> rfl

end Tree

end Syntax

end TypeScribe

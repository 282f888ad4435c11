import Mathlib.Logic.Relation
import TypeScribe.TypeHint.Basic
/-!
# What stands in a hint

A question mark stands before one hint, a union puts several side by
side, and a name is made of nothing else. `TypeHint.OccursIn` is to stand
in a hint at any depth, the hint itself included; the lemmas take it apart
by the form of the hint.
-/

namespace TypeScribe

namespace TypeHint

/-- The hints a hint is directly made of. -/
def parts : TypeHint → List TypeHint
  | nullable a => [a]
  | union as => as
  | _ => []

/-- One hint stands in another, at any depth. -/
def OccursIn (b a : TypeHint) : Prop := Relation.ReflTransGen (fun x y => x ∈ y.parts) b a

variable {a b : TypeHint} {as : List TypeHint}

theorem OccursIn.refl (a : TypeHint) : a.OccursIn a := Relation.ReflTransGen.refl

theorem OccursIn.part {p : TypeHint} (h : b.OccursIn p) (hp : p ∈ a.parts) : b.OccursIn a :=
  h.tail hp

/-- **What stands in a hint is the hint or stands in one of its parts.** -/
theorem occursIn_iff : b.OccursIn a ↔ b = a ∨ ∃ p ∈ a.parts, b.OccursIn p := by
  rw [OccursIn, Relation.ReflTransGen.cases_tail_iff]
  simp only [OccursIn, eq_comm, and_comm]

@[simp] theorem occursIn_name {s : String} : b.OccursIn (name s) ↔ b = name s := by
  rw [occursIn_iff]
  simp [parts]

@[simp] theorem occursIn_rooted {s : String} : b.OccursIn (rooted s) ↔ b = rooted s := by
  rw [occursIn_iff]
  simp [parts]

theorem occursIn_nullable : b.OccursIn (nullable a) ↔ b = nullable a ∨ b.OccursIn a := by
  rw [occursIn_iff]
  simp [parts]

theorem occursIn_union : b.OccursIn (union as) ↔ b = union as ∨ ∃ p ∈ as, b.OccursIn p :=
  occursIn_iff

end TypeHint

end TypeScribe

import TypeScribe.Ty.Basic
/-!
# Induction on types

A property of types holds of all once it passes from the parts of a type
to the type. `Ty.parts` lists those parts, and `Ty.induction` is the
principle with one hypothesis for all members of a union or intersection.
-/

namespace TypeScribe

namespace Ty

/-- The types a type is directly made of. -/
def parts : Ty → List Ty
  | array t | iterable t => [t]
  | union ms | intersection ms => ms
  | _ => []

theorem mem_parts_of_item? {s t : Ty} (hs : t.item? = some s) : s ∈ t.parts := by
  cases t <;> cases hs <;> exact List.mem_cons_self

theorem mem_parts_of_members? {s t : Ty} (hs : s ∈ t.members?.getD []) : s ∈ t.parts := by
  cases t <;> first | exact hs | exact absurd hs List.not_mem_nil

theorem sizeOf_lt_of_mem_parts {s t : Ty} (h : s ∈ t.parts) : sizeOf s < sizeOf t := by
  cases t <;> simp only [parts, List.mem_singleton, List.not_mem_nil] at h
  case array => subst h; simp
  case iterable => subst h; simp
  case union ms => have := List.sizeOf_lt_of_mem h; simp; omega
  case intersection ms => have := List.sizeOf_lt_of_mem h; simp; omega

/-- **What passes from the parts to the whole holds of every type.** -/
theorem induction {P : Ty → Prop} (step : ∀ t : Ty, (∀ s ∈ t.parts, P s) → P t) (t : Ty) : P t :=
  step t fun s _ => induction step s
termination_by t
decreasing_by exact sizeOf_lt_of_mem_parts ‹_›

end Ty

end TypeScribe

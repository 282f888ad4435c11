import TypeScribe.Ty.Basic
/-!
# Equality of types is decidable

Two types are compared member by member. `Ty.same` is that comparison and
`Ty.same_iff` says that it is equality.
-/

namespace TypeScribe

namespace Ty

mutual

/-- Whether two types are equal. -/
def same : Ty → Ty → Bool
  | scalar s, scalar t => s == t
  | array s, array t => s.same t
  | iterable s, iterable t => s.same t
  | union ss, union ts => sameAll ss ts
  | intersection ss, intersection ts => sameAll ss ts
  | object r, object q => r == q
  | anyObject, anyObject => true
  | staticRef c, staticRef d => c == d
  | closure, closure => true
  | callable, callable => true
  | void, void => true
  | never, never => true
  | null, null => true
  | mixed, mixed => true
  | resource, resource => true
  | _, _ => false

/-- Whether two lists of types are equal. -/
def sameAll : List Ty → List Ty → Bool
  | [], [] => true
  | s :: ss, t :: ts => s.same t && sameAll ss ts
  | _, _ => false

end

mutual

/-- **The comparison is equality.** -/
theorem same_iff : ∀ s t : Ty, s.same t = true ↔ s = t
  | scalar _, t => by cases t <;> simp [same]
  | array s, t => by cases t <;> simp [same, same_iff s]
  | iterable s, t => by cases t <;> simp [same, same_iff s]
  | union ss, t => by cases t <;> simp [same, sameAll_iff ss]
  | intersection ss, t => by cases t <;> simp [same, sameAll_iff ss]
  | object _, t => by cases t <;> simp [same]
  | anyObject, t => by cases t <;> simp [same]
  | staticRef _, t => by cases t <;> simp [same]
  | closure, t => by cases t <;> simp [same]
  | callable, t => by cases t <;> simp [same]
  | void, t => by cases t <;> simp [same]
  | never, t => by cases t <;> simp [same]
  | null, t => by cases t <;> simp [same]
  | mixed, t => by cases t <;> simp [same]
  | resource, t => by cases t <;> simp [same]

/-- And so it is on lists. -/
theorem sameAll_iff : ∀ ss ts : List Ty, sameAll ss ts = true ↔ ss = ts
  | [], ts => by cases ts <;> simp [sameAll]
  | s :: ss, ts => by cases ts <;> simp [sameAll, same_iff s, sameAll_iff ss]

end

instance : DecidableEq Ty := fun s t => decidable_of_iff _ (same_iff s t)

end Ty

end TypeScribe

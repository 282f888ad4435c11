import TypeScribe.TypeHint.Basic
/-!
# Equality of hints is decidable

Two hints are compared member by member, as types are. `TypeHint.distinct`
uses the comparison: it keeps of the repeated members of a union only the
first, and a single one left over stands for itself.
-/

namespace TypeScribe

namespace TypeHint

mutual

/-- Whether two hints are equal. -/
def same : TypeHint → TypeHint → Bool
  | name s, name t => s == t
  | rooted s, rooted t => s == t
  | nullable a, nullable b => a.same b
  | union as, union bs => sameAll as bs
  | _, _ => false

/-- Whether two lists of hints are equal. -/
def sameAll : List TypeHint → List TypeHint → Bool
  | [], [] => true
  | a :: as, b :: bs => a.same b && sameAll as bs
  | _, _ => false

end

mutual

/-- **The comparison is equality.** -/
theorem same_iff : ∀ a b : TypeHint, a.same b = true ↔ a = b
  | name _, b => by cases b <;> simp [same]
  | rooted _, b => by cases b <;> simp [same]
  | nullable a, b => by cases b <;> simp [same, same_iff a]
  | union as, b => by cases b <;> simp [same, sameAll_iff as]

/-- And so it is on lists. -/
theorem sameAll_iff : ∀ as bs : List TypeHint, sameAll as bs = true ↔ as = bs
  | [], bs => by cases bs <;> simp [sameAll]
  | a :: as, bs => by cases bs <;> simp [sameAll, same_iff a, sameAll_iff as]

end

instance : DecidableEq TypeHint := fun a b => decidable_of_iff _ (same_iff a b)

/-- The hint without repeated members of a union. -/
def distinct : TypeHint → TypeHint
  | union as =>
    match as.eraseDups with
    | [a] => a
    | bs => union bs
  | a => a

end TypeHint

end TypeScribe

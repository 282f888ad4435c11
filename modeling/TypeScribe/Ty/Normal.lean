import TypeScribe.Ty.Equality
/-!
# Normalising constructors

`unionOf` and `intersectionOf` build a union or intersection from any list
of types. A member that is itself of the form being built is replaced by
its members, repetitions are dropped at their later places, a single
member left over is the result itself, and an empty list gives the neutral
type, `never` for unions and `mixed` for intersections.
-/

namespace TypeScribe

namespace Ty

/-- What a type adds to a union: a union's members, or the type
alone. -/
def unionMembers : Ty → List Ty
  | union ms => ms
  | t => [t]

/-- What a type adds to an intersection: an intersection's members, or
the type alone. -/
def intersectionMembers : Ty → List Ty
  | intersection ms => ms
  | t => [t]

/-- The normalised union of a list of types. -/
def unionOf (ts : List Ty) : Ty :=
  match (ts.flatMap unionMembers).eraseDups with
  | [] => never
  | [t] => t
  | ms => union ms

/-- The normalised intersection of a list of types. -/
def intersectionOf (ts : List Ty) : Ty :=
  match (ts.flatMap intersectionMembers).eraseDups with
  | [] => mixed
  | [t] => t
  | ms => intersection ms

/-- `T|null`. -/
def nullable (t : Ty) : Ty := unionOf [t, null]

/-! ## Small cases -/

@[simp] theorem unionOf_nil : unionOf [] = never := rfl

@[simp] theorem intersectionOf_nil : intersectionOf [] = mixed := rfl

/-- A type that is no union is its own union. -/
theorem unionOf_singleton {t : Ty} (h : t.isUnion = false) : unionOf [t] = t := by
  cases t <;> simp_all [unionOf, unionMembers, isUnion, List.eraseDups_cons]

/-- `null|null` is `null`. -/
theorem nullable_null : nullable null = null := rfl

end Ty

end TypeScribe

/-!
# Types in doc comments

A doc comment can say more than a hint: arrays of anything, unions
of arrays, intersections. `DocType.text` is how it is written; an array of
a union or intersection puts its item in parentheses.

`DocType.arrayOf` makes an array of a doc type and moves it inside a
union, so that an array of `A|B` is written `A[]|B[]`.
-/

namespace TypeScribe

/-- A type as a doc comment states it. -/
inductive DocType
  | name (s : String)
  | array (item : DocType)
  | union (members : List DocType)
  | intersection (members : List DocType)
deriving Repr

namespace DocType

instance : Inhabited DocType := ⟨name "mixed"⟩

/-- Whether the type is a union. -/
def isUnion : DocType → Bool
  | union _ => true
  | _ => false

/-- Whether the type has to be put in parentheses below an array. -/
def isCompound : DocType → Bool
  | union _ | intersection _ => true
  | _ => false

mutual

/-- The doc type as it is written. -/
def text : DocType → String
  | name s => s
  | array d => (if d.isCompound then "(" ++ d.text ++ ")" else d.text) ++ "[]"
  | union ds => "|".intercalate (texts ds)
  | intersection ds => "&".intercalate (texts ds)

/-- Several doc types as they are written. -/
def texts : List DocType → List String
  | [] => []
  | d :: ds => d.text :: texts ds

end

theorem texts_eq_map (ds : List DocType) : texts ds = ds.map text := by
  induction ds with
  | nil => rfl
  | cons d ds ih => rw [texts, ih, List.map_cons]

/-! ## Equality -/

mutual

/-- Whether two doc types are equal. -/
def same : DocType → DocType → Bool
  | name s, name t => s == t
  | array d, array e => d.same e
  | union ds, union es => sameAll ds es
  | intersection ds, intersection es => sameAll ds es
  | _, _ => false

/-- Whether two lists of doc types are equal. -/
def sameAll : List DocType → List DocType → Bool
  | [], [] => true
  | d :: ds, e :: es => d.same e && sameAll ds es
  | _, _ => false

end

mutual

/-- **The comparison is equality.** -/
theorem same_iff : ∀ d e : DocType, d.same e = true ↔ d = e
  | name _, e => by cases e <;> simp [same]
  | array d, e => by cases e <;> simp [same, same_iff d]
  | union ds, e => by cases e <;> simp [same, sameAll_iff ds]
  | intersection ds, e => by cases e <;> simp [same, sameAll_iff ds]

/-- And so it is on lists. -/
theorem sameAll_iff : ∀ ds es : List DocType, sameAll ds es = true ↔ ds = es
  | [], es => by cases es <;> simp [sameAll]
  | d :: ds, es => by cases es <;> simp [sameAll, same_iff d, sameAll_iff ds]

end

instance : DecidableEq DocType := fun d e => decidable_of_iff _ (same_iff d e)

/-! ## Building -/

/-- An array of one member of a union; a union among the members stays a
union, of arrays. -/
def arrayOfMember : DocType → DocType
  | union ds => union (ds.map array)
  | d => array d

/-- An array of a doc type, moved inside a union. -/
def arrayOf : DocType → DocType
  | union ds => union (ds.map arrayOfMember)
  | d => array d

/-- One of several doc types: repetitions are dropped, and a single one
left over stands for itself. -/
def oneOf (ds : List DocType) : DocType :=
  match ds.eraseDups with
  | [d] => d
  | ds => union ds

/-- All of several doc types, repetitions dropped. -/
def allOf (ds : List DocType) : DocType := intersection ds.eraseDups

end DocType

end TypeScribe

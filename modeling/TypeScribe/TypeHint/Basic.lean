/-!
# Type hints

The type hint of a parameter, a property or a return value, as it stands
in the code. A type without a hint is never represented by one.
-/

namespace TypeScribe

/-- A type as the code states it. -/
inductive TypeHint
  /-- A built-in or relative name. -/
  | name (s : String)
  /-- A class by its name from the namespace root, given without the
  leading `\`. -/
  | rooted (s : String)
  /-- `?T` -/
  | nullable (inner : TypeHint)
  /-- `A|B` -/
  | union (members : List TypeHint)
deriving Repr

namespace TypeHint

/-- Whether the hint is of the form `?T`. -/
def isNullable : TypeHint → Bool
  | nullable _ => true
  | _ => false

/-- Whether the hint is a union. -/
def isUnion : TypeHint → Bool
  | union _ => true
  | _ => false

mutual

/-- The hint as it is written. -/
def text : TypeHint → String
  | name s => s
  | rooted s => "\\" ++ s
  | nullable a => "?" ++ a.text
  | union as => "|".intercalate (texts as)

/-- Several hints as they are written. -/
def texts : List TypeHint → List String
  | [] => []
  | a :: as => a.text :: texts as

end

theorem texts_eq_map (as : List TypeHint) : texts as = as.map text := by
  induction as with
  | nil => rfl
  | cons a as ih => rw [texts, ih, List.map_cons]

end TypeHint

end TypeScribe

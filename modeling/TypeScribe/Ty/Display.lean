import TypeScribe.Ty.Basic
/-!
# Types in messages

How a type is written in a message: the item of an array in angle
brackets, members of a union or intersection in parentheses.
-/

namespace TypeScribe

namespace Ty

mutual

/-- The type as messages show it. -/
def text : Ty → String
  | scalar s => s.name
  | array t => "array<" ++ t.text ++ ">"
  | iterable t => "iterable<" ++ t.text ++ ">"
  | union ms => "(" ++ "|".intercalate (texts ms) ++ ")"
  | intersection ms => "(" ++ "&".intercalate (texts ms) ++ ")"
  | object ref => ref.spelling
  | anyObject => "object"
  | staticRef cls => "static(" ++ cls ++ ")"
  | closure => "Closure"
  | callable => "callable"
  | void => "void"
  | never => "never"
  | null => "null"
  | mixed => "mixed"
  | resource => "resource"

/-- The members as messages show them. -/
def texts : List Ty → List String
  | [] => []
  | t :: ts => t.text :: texts ts

end

theorem texts_eq_map (ts : List Ty) : texts ts = ts.map text := by
  induction ts with
  | nil => rfl
  | cons t ts ih => rw [texts, ih, List.map_cons]

end Ty

end TypeScribe

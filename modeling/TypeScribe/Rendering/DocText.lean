import TypeScribe.Rendering.Renderer
import TypeScribe.Text.Segments
/-!
# Types as one line of text

The short form for doc comments, which knows no rules. It leaves out what
a hint says better: from the first version with scalar hints on, `void`
and iterables have an empty text, and empty texts are left out of unions
and intersections.
-/

namespace TypeScribe

namespace Renderer

/-- The members of a union or intersection in a row: each text once, the
empty one left out. -/
def joinDistinct (sep : String) (parts : List String) : String :=
  sep.intercalate (parts.eraseDups.filter (· ≠ ""))

/-- Arrays of the members of a union in a row, each text once. -/
def arraysOf (parts : List String) : String :=
  "|".intercalate ((parts.map (· ++ "[]")).eraseDups)

/-- An array of a type that is no union; if its text has several
alternatives, an array of each of them. -/
def arrayText (item : String) : String :=
  let alternatives := (Text.segments '|' item.toList).filter (· ≠ [])
  "|".intercalate (alternatives.map fun part => String.ofList part ++ "[]")

mutual

/-- The text of a type; `parent` is the type it stands in, if any. -/
def docText (m : Renderer) (parent : Option Ty) : Ty → Except RenderError String
  | .union ts => (m.docTexts none ts).map (joinDistinct "|")
  | .intersection ts => (m.docTexts none ts).map (joinDistinct "&")
  | .object ref => .ok (m.docName ref)
  | .anyObject => .ok "object"
  | .closure => .ok m.closureName
  | .scalar s => .ok s.name
  | .null => .ok "null"
  | .mixed | .never => .ok "mixed"
  | .callable => .ok "callable"
  | .resource => .ok "resource"
  | .array (.union ts) => (m.docTexts (some (.array (.union ts))) ts).map arraysOf
  | .array t => (m.docText parent t).map arrayText
  | .void => .ok (if m.supports .scalarTypes then "" else "void")
  | .iterable _ => .ok (if m.supports .scalarTypes then "" else "iterable")
  | .staticRef _ => .error (.unsupported .docText .staticRef)

/-- The texts of several types that stand in the same one; the first
failure is the result. -/
def docTexts (m : Renderer) (parent : Option Ty) : List Ty → Except RenderError (List String)
  | [] => .ok []
  | t :: ts => do
    let s ← m.docText parent t
    let rest ← m.docTexts parent ts
    return s :: rest

end

end Renderer

end TypeScribe

import TypeScribe.Rendering.Renderer
import TypeScribe.Ty.Induction
/-!
# Types as doc types

Arrays and iterables are documented as arrays of their items, whatever the
rules are. Any other type goes to the rule for its form, and without a
rule, unions and the types that name a class or a pseudo-type are
documented by the renderer itself.
-/

namespace TypeScribe

namespace Renderer

/-- The doc type of a type that no rule decides about. -/
def plainDocType (m : Renderer) (members : Except RenderError (List DocType)) :
    Ty → Except RenderError DocType
  | .union _ => members.map .oneOf
  | .object ref => .ok (.name (m.docName ref))
  | .anyObject => .ok (.name "object")
  | .closure => .ok (.name m.closureName)
  | .callable => .ok (.name "callable")
  | .void => .ok (.name "void")
  | .resource => .ok (.name "resource")
  | .staticRef _ => .ok (.name "static")
  | t => .error (.unsupported .docType t.kind)

/-- The doc type of a type that is neither array nor iterable, from those
of its members. -/
def docTypeFrom (m : Renderer) (t : Ty) (members : Except RenderError (List DocType)) :
    Except RenderError DocType :=
  ((m.ruleFor? t).bind (·.docType? t members)).getD (m.plainDocType members t)

mutual

/-- The doc type of a type. -/
def docType (m : Renderer) : Ty → Except RenderError DocType
  | .array t => (m.docType t).map .arrayOf
  | .iterable t => (m.docType t).map .arrayOf
  | .union ts => m.docTypeFrom (.union ts) (m.docTypes ts)
  | .intersection ts => m.docTypeFrom (.intersection ts) (m.docTypes ts)
  | t => m.docTypeFrom t (.ok [])

/-- The doc types of several types; the first failure is the result. -/
def docTypes (m : Renderer) : List Ty → Except RenderError (List DocType)
  | [] => .ok []
  | t :: ts => do
    let d ← m.docType t
    let ds ← m.docTypes ts
    return d :: ds

end

/-- What a rule says about a type when it is asked directly, be it for the
type's form or not. -/
def docTypeBy (m : Renderer) (r : Rule) (t : Ty) : Except RenderError DocType :=
  (r.docType? t (m.docTypes (t.members?.getD []))).getD (m.docType t)

/-- **The rule for a type's form decides**, unless the type is documented
as an array. -/
theorem docType_eq_docTypeBy {m : Renderer} {t : Ty} {r : Rule} (h : m.ruleFor? t = some r)
    (hitem : t.item? = none) : m.docType t = m.docTypeBy r t := by
  have hk := kind_of_ruleFor? h
  have hr : r ≠ .iterable := by
    rintro rfl
    cases t <;> simp_all [Ty.kind, Rule.kind, Ty.item?]
  cases t <;> simp only [Ty.item?, reduceCtorEq] at hitem <;>
    cases r <;> simp_all [docType, docTypeBy, docTypeFrom, Rule.docType?, Ty.members?, docTypes]

end Renderer

end TypeScribe

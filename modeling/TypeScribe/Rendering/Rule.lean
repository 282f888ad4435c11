import TypeScribe.TypeHint.Basic
import TypeScribe.Rendering.DocType
import TypeScribe.Ty.Display
import TypeScribe.Ty.Equality
import TypeScribe.Version.Feature
/-!
# Rules for single forms of types

A rule says how the types of one form are rendered. A renderer
has a list of rules and asks the first one that is for a type's form
before it falls back on what it knows itself, so the order of the rules
matters only between rules for the same form.

There are six built-in rules, which are the default list, and rules that
give the same answer for every type of their form.
-/

namespace TypeScribe

/-- The place a hint is for. -/
inductive Slot
  | param
  | property
  /-- The result of a function or method. -/
  | result
  /-- No place in particular. -/
  | any
deriving DecidableEq, Repr

/-- What a renderer can be asked for. -/
inductive Operation
  | docType
  | hint
  | docText
deriving DecidableEq, Repr

/-- The operation's name in messages. -/
def Operation.name : Operation → String
  | docType => "to_doc_type_node"
  | hint => "to_syntax_type_node"
  | docText => "to_doc_string"

/-- A type that cannot be rendered. -/
inductive RenderError
  /-- No rule and no fallback is for types of this form. -/
  | unsupported (operation : Operation) (kind : TyKind)
  /-- `T|null` where the hint of `T` is a union, which cannot take a
  question mark. -/
  | nullableUnion (inner : Ty)
deriving DecidableEq, Repr

/-- What the caller is told. -/
def RenderError.message : RenderError → String
  | unsupported operation kind =>
    "`" ++ operation.name ++ "` has no mapping for `" ++ kind.name ++ "` types"
  | nullableUnion inner =>
    "invariant violated: nullable `" ++ inner.text ++ "` mapped to a union annotation"

/-- How types of one form are rendered. -/
inductive Rule
  /-- Scalars by their short names. -/
  | scalar
  /-- `null`, in doc comments only. -/
  | null
  /-- `mixed`, in doc comments only. -/
  | mixed
  /-- `never`, which is documented as `mixed` and has no hint. -/
  | never
  /-- Iterables, which are documented the way arrays are. -/
  | iterable
  /-- `A&B`, in doc comments only. -/
  | intersection
  /-- One answer for every type of a form. -/
  | fixed (kind : TyKind) (doc : DocType) (hint : Option TypeHint)
deriving Repr

namespace Rule

/-- The default list. -/
def defaults : List Rule := [scalar, null, mixed, never, iterable, intersection]

/-- The form the rule is for. -/
def kind : Rule → TyKind
  | scalar => .scalar
  | null => .null
  | mixed => .mixed
  | never => .never
  | iterable => .iterable
  | intersection => .intersection
  | fixed k _ _ => k

/-- Whether the rule is for a type. -/
def accepts (r : Rule) (t : Ty) : Bool := t.kind == r.kind

/-- The short name of a scalar; nothing else has one. -/
def scalarName (operation : Operation) : Ty → Except RenderError String
  | .scalar s => .ok s.name
  | t => .error (.unsupported operation t.kind)

/-- What the rule says about a type in doc comments, given the doc types of
the type's members. The rule for iterables has no answer of its own and
leaves the type to the renderer. -/
def docType? (r : Rule) (t : Ty) (members : Except RenderError (List DocType)) :
    Option (Except RenderError DocType) :=
  match r with
  | scalar => some ((scalarName .docType t).map .name)
  | null => some (.ok (.name "null"))
  | mixed | never => some (.ok (.name "mixed"))
  | iterable => none
  | intersection => some (members.map .allOf)
  | fixed _ doc _ => some (.ok doc)

/-- The hint by the rule; none if the type has no hint in the
given version. -/
def hint? (r : Rule) (v : Version) (t : Ty) : Except RenderError (Option TypeHint) :=
  match r with
  | scalar => do
    let s ← scalarName .hint t
    return if v.has .scalarTypes then some (.name s) else none
  | iterable => .ok (if v.has .iterableType then some (.name "iterable") else none)
  | null | mixed | never | intersection => .ok none
  | fixed _ _ a => .ok a

end Rule

end TypeScribe

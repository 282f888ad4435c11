import TypeScribe.Rendering.Renderer
/-!
# Types as hints

Not every type has a hint: that depends on the version and on the place
the hint is for. `none` is that answer; it is no error.

The hint of a union is the first of these that applies. Arrays, iterables
and `null` together are `array` or `iterable`. One type with `null` takes
a question mark. Where the version has unions and every member has a hint,
the hints stand side by side. Otherwise a member to which all others are
related stands for them all, if there is one.
-/

namespace TypeScribe

namespace Renderer

/-- A hint, or the lack of one, or a failure. -/
abbrev Outcome := Except RenderError (Option TypeHint)

/-! ## Classes -/

/-- The hint of a class. Some names mean a pseudo-type, whose hint is
another one or missing. -/
def classHint? (ref : ClassRef) : Option TypeHint :=
  let name := Text.unrooted ref.identity
  match Text.lower name with
  | "callable" => some (.name "callable")
  | "self" => some (.name "self")
  | "static" | "mixed" => none
  | _ => some (.rooted name)

/-- Whether a class is the one that counts as `iterable`. -/
def isIterableMarker (m : Renderer) (ref : ClassRef) : Bool :=
  Text.unrooted ref.identity == m.config.iterableMarker

/-! ## Unions -/

/-- What a member says about a union of arrays. -/
inductive ArrayLike
  | array
  | iterable
  | null
deriving DecidableEq, Repr

/-- Whether a type may stand in a union of arrays, and what it says there. -/
def arrayLike? (m : Renderer) : Ty → Option ArrayLike
  | .array _ => some .array
  | .iterable _ => some .iterable
  | .null => some .null
  | .object ref => if m.isIterableMarker ref then some .iterable else none
  | _ => none

/-- The hint of a union whose members are all arrays, iterables or `null`. -/
def arrayUnion? (m : Renderer) (ts : List Ty) : Option TypeHint := do
  let forms ← ts.mapM m.arrayLike?
  let base := TypeHint.name (if forms.contains .iterable then "iterable" else "array")
  return if forms.contains .null then .nullable base else base

/-- The hint of `T|null` from that of `T`. -/
def addNull (inner : Ty) : Option TypeHint → Outcome
  | none => .ok none
  | some (.nullable a) => .ok (some (.nullable a))
  | some (.union _) => .error (.nullableUnion inner)
  | some a => .ok (some (.nullable a))

/-- The other member of a union of two of which exactly one is `null`. -/
def besideNull? {α : Type} : List (Ty × α) → Option (Ty × α)
  | [(.null, _), other] => if other.1.isNull then none else some other
  | [other, (.null, _)] => some other
  | _ => none

/-- The hints of all members, if all have one. The first member that has
none or fails decides. -/
def allHints {α : Type} : List (α × Outcome) → Except RenderError (Option (List TypeHint))
  | [] => .ok (some [])
  | (_, .error e) :: _ => .error e
  | (_, .ok none) :: _ => .ok none
  | (_, .ok (some a)) :: rest => (allHints rest).map (·.map (a :: ·))

/-- The first of several classes that is related to all others, written
from the root. -/
def commonAncestor? (m : Renderer) (ts : List Ty) : Option TypeHint := do
  let names ← ts.mapM fun t => t.classRef?.map ClassRef.identity
  let found ← names.zipIdx.find? fun candidate =>
    names.zipIdx.all fun other =>
      candidate.2 == other.2 || m.classes.related candidate.1 other.1
  return .rooted (Text.unrooted found.1)

/-- The hint of a union, from its members with their outcomes. -/
def unionHint (m : Renderer) (members : List (Ty × Outcome)) : Outcome :=
  let ts := members.map Prod.fst
  match m.arrayUnion? ts, besideNull? members with
  | some a, _ => .ok (some a)
  | none, some (inner, outcome) => outcome.bind (addNull inner)
  | none, none => do
    if m.supports .unionTypes then
      if let some as ← allHints members then
        return some (.union as)
    return m.commonAncestor? ts

/-! ## All types -/

/-- The hint of a type that is no union and that no rule decides about. -/
def plainHint (m : Renderer) (slot : Slot) : Ty → Outcome
  | .array _ => .ok (some (.name "array"))
  | .staticRef _ | .resource => .ok none
  | .callable | .closure => .ok (if slot = .property then none else some (.name "callable"))
  | .object ref => .ok (classHint? ref)
  | .anyObject => .ok (if m.supports .objectType then some (.name "object") else none)
  | t => .error (.unsupported .hint t.kind)

/-- The hint of `void`, which only a result can have. -/
def voidHint? (m : Renderer) (slot : Slot) : Option TypeHint :=
  if m.supports .voidType && slot ≠ .param && slot ≠ .property then some (.name "void") else none

mutual

/-- The hint of a type for a place. -/
def hint (m : Renderer) (slot : Slot) : Ty → Outcome
  | .void => .ok (m.voidHint? slot)
  | .object (.selfRef _) => .ok (some (.name "self"))
  | .union ts =>
    match m.ruleFor? (.union ts) with
    | some r => r.hint? m.config.version (.union ts)
    | none => m.unionHint (m.withHints slot ts)
  | t =>
    match m.ruleFor? t with
    | some r => r.hint? m.config.version t
    | none => m.plainHint slot t

/-- Several types, each with the outcome of its hint. -/
def withHints (m : Renderer) (slot : Slot) : List Ty → List (Ty × Outcome)
  | [] => []
  | t :: ts => (t, m.hint slot t) :: m.withHints slot ts

end

theorem withHints_eq_map (m : Renderer) (slot : Slot) (ts : List Ty) :
    m.withHints slot ts = ts.map fun t => (t, m.hint slot t) := by
  induction ts with
  | nil => rfl
  | cons t ts ih => rw [withHints, ih, List.map_cons]

/-- What a rule says about a type when it is asked directly. -/
def hintBy (m : Renderer) (r : Rule) (t : Ty) : Outcome :=
  r.hint? m.config.version t

end Renderer

end TypeScribe

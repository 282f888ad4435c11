import TypeScribe.Proofs.Distinct
import TypeScribe.Proofs.Ty.Normal
import TypeScribe.Rendering.Document
/-!
# What a doc type offers

A doc comment spreads arrays over unions, drops repetitions and leaves out
a union of one member, all of it at every depth. What stays the same is
the list of alternatives, in the order they are written: what is left when
all unions but those inside intersections are taken apart. This file reads
the alternatives off a doc type and off a type, and shows that with the
default rules they agree up to repetitions: none is lost and none is
invented.
-/

namespace TypeScribe

namespace DocType

mutual

/-- The alternatives of a doc type: those of all members for a union,
those of the item for an array, each in an array of its own. -/
def alternatives : DocType → List DocType
  | union ds => alternativesOfAll ds
  | array d => d.alternatives.map array
  | name s => [name s]
  | intersection ds => [intersection ds]

/-- The alternatives of several doc types, one after the other. -/
def alternativesOfAll : List DocType → List DocType
  | [] => []
  | d :: ds => d.alternatives ++ alternativesOfAll ds

end

theorem alternativesOfAll_eq_flatMap (ds : List DocType) :
    alternativesOfAll ds = ds.flatMap alternatives := by
  induction ds with
  | nil => rfl
  | cons d ds ih => rw [alternativesOfAll, ih, List.flatMap_cons]

@[simp] theorem alternatives_union (ds : List DocType) :
    (union ds).alternatives = ds.flatMap alternatives := by
  rw [alternatives, alternativesOfAll_eq_flatMap]

@[simp] theorem alternatives_array (d : DocType) :
    (array d).alternatives = d.alternatives.map array := by
  rw [alternatives]

/-- An array of every member offers what an array of the union would. -/
theorem flatMap_alternatives_map {f : DocType → DocType} {ds : List DocType}
    (hf : ∀ d ∈ ds, (f d).alternatives = d.alternatives.map array) :
    (ds.map f).flatMap alternatives = (ds.flatMap alternatives).map array := by
  rw [List.flatMap_map, List.map_flatMap]
  exact List.flatMap_congr hf

/-- Moving an array inside a member of a union changes no alternative. -/
theorem alternatives_arrayOfMember (d : DocType) :
    (arrayOfMember d).alternatives = d.alternatives.map array := by
  cases d with
  | union ds =>
    rw [arrayOfMember, alternatives_union, alternatives_union]
    exact flatMap_alternatives_map fun d _ => alternatives_array d
  | name _ | array _ | intersection _ =>
    rw [arrayOfMember, alternatives_array]
    exact nofun

/-- **Nor does moving it inside the union.** -/
theorem alternatives_arrayOf (d : DocType) :
    (arrayOf d).alternatives = d.alternatives.map array := by
  cases d with
  | union ds =>
    rw [arrayOf, alternatives_union, alternatives_union]
    exact flatMap_alternatives_map fun d _ => alternatives_arrayOfMember d
  | name _ | array _ | intersection _ =>
    rw [arrayOf, alternatives_array]
    exact nofun

/-- The alternatives of one of several doc types are theirs, as far as
these differ. -/
theorem alternatives_oneOf (ds : List DocType) :
    (oneOf ds).alternatives.eraseDups = (ds.flatMap alternatives).eraseDups := by
  have hunion : (oneOf ds).alternatives = ds.eraseDups.flatMap alternatives := by
    unfold oneOf
    split
    · rename_i d heq
      rw [heq, List.flatMap_singleton]
    · rw [alternatives_union]
  rw [hunion, Distinct.eraseDups_flatMap_eraseDups]

end DocType

namespace Renderer

mutual

/-- The alternatives of a type: those of all members for a union, those of
the item for an array or iterable, each in an array of its own, and what
the type is documented as for any other. -/
def alternatives (m : Renderer) : Ty → Except RenderError (List DocType)
  | .union ts => m.alternativesOfAll ts
  | .array t => (m.alternatives t).map (·.map .array)
  | .iterable t => (m.alternatives t).map (·.map .array)
  | t => (m.docType t).map ([·])

/-- The alternatives of several types, one after the other. -/
def alternativesOfAll (m : Renderer) : List Ty → Except RenderError (List DocType)
  | [] => .ok []
  | t :: ts => do
    let ds ← m.alternatives t
    let more ← m.alternativesOfAll ts
    return ds ++ more

end

/-! ## Documenting by the default rules -/

variable (config : Config) (classes : Hierarchy)

/-- No rule is for unions, so the renderer documents them itself. -/
theorem docType_standard_union (ts : List Ty) :
    (standard config classes).docType (.union ts) =
      ((standard config classes).docTypes ts).map .oneOf := by
  have hnone : (standard config classes).ruleFor? (.union ts) = none := rfl
  rw [docType, docTypeFrom, hnone]
  rfl

/-- The rule for intersections keeps each distinct member. -/
theorem docType_standard_intersection (ts : List Ty) :
    (standard config classes).docType (.intersection ts) =
      ((standard config classes).docTypes ts).map .allOf := by
  have hrule : (standard config classes).ruleFor? (.intersection ts) = some .intersection := rfl
  rw [docType, docTypeFrom, hrule]
  rfl

/-- A type without parts is documented by a name: scalars, `null`, `mixed`
and `never` by their rules, the others by the renderer. -/
theorem exists_docType_standard_of_isLeaf {t : Ty} (h : t.isLeaf = true) :
    ∃ s, (standard config classes).docType t = .ok (.name s) := by
  cases t <;> first | exact ⟨_, rfl⟩ | cases h

/-! ## The alternatives of a type and of what it is documented as -/

/-- A type has a doc type, and both have the same alternatives, later
repetitions aside. -/
def Faithful (m : Renderer) (t : Ty) : Prop :=
  ∃ d ds, m.docType t = .ok d ∧ m.alternatives t = .ok ds ∧
    d.alternatives.eraseDups = ds.eraseDups

variable {config classes}

/-- An array is faithful where its item is. -/
theorem Faithful.array {m : Renderer} {t : Ty} (h : m.Faithful t) : m.Faithful (.array t) := by
  obtain ⟨d, ds, hdoc, halts, hsame⟩ := h
  refine ⟨d.arrayOf, ds.map .array, ?_, ?_, ?_⟩
  · rw [docType, hdoc]; rfl
  · rw [alternatives, halts]; rfl
  · have hmap : ∀ l : List DocType, (l.map DocType.array).eraseDups = l.eraseDups.map .array :=
      fun l => Distinct.eraseDups_map fun a _ b _ => DocType.array.inj
    rw [DocType.alternatives_arrayOf, hmap, hmap, hsame]

theorem Faithful.iterable {m : Renderer} {t : Ty} (h : m.Faithful t) : m.Faithful (.iterable t) := by
  have hdoc : m.docType (.iterable t) = m.docType (.array t) := by rw [docType, docType]
  have halts : m.alternatives (.iterable t) = m.alternatives (.array t) := by
    rw [alternatives, alternatives]
  unfold Faithful
  rw [hdoc, halts]
  exact h.array

/-- Faithful types have doc types, and one after the other these have the
alternatives of the types. -/
theorem Faithful.all {m : Renderer} {ts : List Ty} (h : ∀ t ∈ ts, m.Faithful t) :
    ∃ ds as, m.docTypes ts = .ok ds ∧ m.alternativesOfAll ts = .ok as ∧
      (ds.flatMap DocType.alternatives).eraseDups = as.eraseDups := by
  induction ts with
  | nil => exact ⟨[], [], by rw [docTypes], by rw [alternativesOfAll], rfl⟩
  | cons t ts ih =>
    obtain ⟨d, as, hdoc, halts, hsame⟩ := h t (by simp)
    obtain ⟨ds, more, hdocs, hmore, hrest⟩ := ih fun s hs => h s (by simp [hs])
    refine ⟨d :: ds, as ++ more, ?_, ?_, ?_⟩
    · rw [docTypes, hdoc, hdocs]; rfl
    · rw [alternativesOfAll, halts, hmore]; rfl
    · rw [List.flatMap_cons]
      exact Distinct.eraseDups_append_congr hsame hrest

theorem faithful_union {ts : List Ty} (h : ∀ t ∈ ts, (standard config classes).Faithful t) :
    (standard config classes).Faithful (.union ts) := by
  obtain ⟨ds, as, hdocs, halts, hsame⟩ := Faithful.all h
  refine ⟨.oneOf ds, as, ?_, ?_, ?_⟩
  · rw [docType_standard_union, hdocs]; rfl
  · rw [alternatives, halts]
  · rw [DocType.alternatives_oneOf, hsame]

/-- A type that is no union, array or iterable has one alternative. If what
it is documented as has no other either, the type is faithful. -/
theorem faithful_of_alternatives {m : Renderer} {t : Ty} {d : DocType}
    (hone : m.alternatives t = (m.docType t).map ([·])) (hdoc : m.docType t = .ok d)
    (hself : d.alternatives = [d]) : m.Faithful t := by
  refine ⟨d, [d], hdoc, ?_, by rw [hself]⟩
  rw [hone, hdoc]
  rfl

/-- An intersection is one alternative, of whatever its members are; it is
faithful where they can be documented at all. -/
theorem faithful_intersection {ts : List Ty} (h : ∀ t ∈ ts, (standard config classes).Faithful t) :
    (standard config classes).Faithful (.intersection ts) := by
  obtain ⟨ds, -, hdocs, -, -⟩ := Faithful.all h
  have hdoc : (standard config classes).docType (.intersection ts) = .ok (.allOf ds) := by
    rw [docType_standard_intersection, hdocs]
    rfl
  refine faithful_of_alternatives ?_ hdoc (by rw [DocType.allOf, DocType.alternatives])
  simp only [alternatives]

theorem faithful_of_isLeaf {t : Ty} (h : t.isLeaf = true) :
    (standard config classes).Faithful t := by
  obtain ⟨s, hdoc⟩ := exists_docType_standard_of_isLeaf config classes h
  refine faithful_of_alternatives ?_ hdoc (by rw [DocType.alternatives])
  cases t <;> simp_all [alternatives, Ty.isLeaf]

/-- **No alternative of a type is lost and none is invented.** Whatever
unions, arrays and intersections a type is nested from, the default rules
document it, and by the alternatives the type has. -/
theorem alternatives_of_docType (config : Config) (classes : Hierarchy) (t : Ty) :
    ∃ d ds, (standard config classes).docType t = .ok d ∧
      (standard config classes).alternatives t = .ok ds ∧
      d.alternatives.eraseDups = ds.eraseDups := by
  change (standard config classes).Faithful t
  induction t using Ty.induction with
  | step t ih =>
    cases t with
    | union ts => exact faithful_union ih
    | intersection ts => exact faithful_intersection ih
    | array t => exact (ih t (by simp [Ty.parts])).array
    | iterable t => exact (ih t (by simp [Ty.parts])).iterable
    | _ => exact faithful_of_isLeaf (by rfl)

/-- An alternative may come twice, at different depths. -/
example :
    (standard {} .empty).docType
      (.array (.union [.null, .array (.union [.callable, .null]), .array .callable])) =
        .ok (.union [.array (.name "null"),
          .union [.array (.array (.name "callable")), .array (.array (.name "null"))],
          .array (.array (.name "callable"))]) := rfl

end Renderer

end TypeScribe

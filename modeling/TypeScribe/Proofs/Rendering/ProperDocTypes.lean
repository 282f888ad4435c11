import TypeScribe.Proofs.Rendering.Distribution
/-!
# Proper doc types

A union in a doc type should offer a choice and name no alternative twice;
an intersection should have a member and name none twice. Where members
are put together repetitions are dropped, but arrays are moved inside
unions afterwards and make other members of them. These differ still,
because the array of a member can be undone (`arrayOfMember_injective`),
and so the array of a doc type is proper exactly if the doc type is
(`proper_arrayOf`). By the default rules there is then one way to an
improper doc type, a raw union or intersection of nothing
(`proper_docType_iff`). Of alternatives nothing is lost on the way either,
proper or not (`arrayOf_keeps`).
-/

namespace TypeScribe

namespace DocType

variable {d : DocType} {ds : List DocType} {f g : DocType → DocType}

/-! ## Arrays that can be undone -/

theorem isUnion_or_eq_union (d : DocType) : d.isUnion = false ∨ ∃ ds, d = union ds := by
  cases d with
  | union ds => exact .inr ⟨ds, rfl⟩
  | _ => exact .inl rfl

theorem array_injective : Function.Injective array := fun _ _ => array.inj

/-- The way arrays are made: by `g` of a doc type, which leaves the members
of a union to `f`. -/
structure Spreads (f g : DocType → DocType) : Prop where
  single : ∀ d, d.isUnion = false → g d = array d
  union : ∀ ds, g (union ds) = .union (ds.map f)

theorem spreads_arrayOfMember : Spreads array arrayOfMember :=
  ⟨fun _ => arrayOfMember_of_isUnion_eq_false, fun ds => by rw [arrayOfMember]⟩

theorem spreads_arrayOf : Spreads arrayOfMember arrayOf :=
  ⟨fun _ => arrayOf_of_isUnion_eq_false, fun ds => by rw [arrayOf]⟩

/-- **An array can be undone** as far as the arrays of members can: whether
it was made of a union shows. -/
theorem Spreads.injective (h : Spreads f g) (hf : Function.Injective f) :
    Function.Injective g := by
  intro d e heq
  rcases isUnion_or_eq_union d with hd | ⟨ds, rfl⟩ <;>
    rcases isUnion_or_eq_union e with he | ⟨es, rfl⟩
  · rw [h.single d hd, h.single e he] at heq
    exact array_injective heq
  · rw [h.single d hd, h.union] at heq
    cases heq
  · rw [h.union, h.single e he] at heq
    cases heq
  · rw [h.union, h.union, union.injEq] at heq
    rw [List.map_injective_iff.2 hf heq]

theorem arrayOfMember_injective : Function.Injective arrayOfMember :=
  spreads_arrayOfMember.injective array_injective

theorem arrayOf_injective : Function.Injective arrayOf :=
  spreads_arrayOf.injective arrayOfMember_injective

/-- **Moving an array inside loses nothing**, whatever the doc type and
however its unions are nested. The alternatives are the same, in order,
each in an array. The doc type can be told from the result. Of a union
comes a union with as many members, which differ exactly if the members
did. -/
theorem arrayOf_keeps :
    (∀ d : DocType, d.arrayOf.alternatives = d.alternatives.map array) ∧
    (∀ d e : DocType, d.arrayOf = e.arrayOf ↔ d = e) ∧
    ∀ ds : List DocType, ∃ es, (union ds).arrayOf = union es ∧ es.length = ds.length ∧
      (es.Nodup ↔ ds.Nodup) := by
  refine ⟨alternatives_arrayOf, fun d e => arrayOf_injective.eq_iff, fun ds => ?_⟩
  refine ⟨ds.map arrayOfMember, spreads_arrayOf.union ds, List.length_map _, ?_⟩
  exact List.nodup_map_iff arrayOfMember_injective

/-- Three levels of unions: the innermost keeps its array around it. -/
example : (union [union [union [name "A", name "B"], name "C"], name "D"]).arrayOf =
    union [union [array (union [name "A", name "B"]), array (name "C")], array (name "D")] := rfl

/-! ## Proper unions and intersections -/

/-- A union of two alternatives or more, all different, or an intersection
of one member or more, all different, or neither. -/
def IsProper : DocType → Prop
  | union ds => 2 ≤ ds.length ∧ ds.Nodup
  | intersection ds => 1 ≤ ds.length ∧ ds.Nodup
  | _ => True

/-- Every union and every intersection in the doc type is proper. -/
def Proper (d : DocType) : Prop := ∀ e : DocType, e.OccursIn d → e.IsProper

/-- **A doc type is proper if it is at the top and its parts are proper.** -/
theorem proper_iff : d.Proper ↔ d.IsProper ∧ ∀ p ∈ d.parts, p.Proper := by
  constructor
  · intro h
    exact ⟨h d .refl, fun p hp e he => h e (he.tail hp)⟩
  · rintro ⟨htop, hparts⟩ e he
    rcases he.cases_tail with rfl | ⟨p, hep, hp⟩
    · exact htop
    · exact hparts p hp e hep

theorem proper_name (s : String) : (name s).Proper := by
  rw [proper_iff, parts]
  exact ⟨trivial, by simp⟩

theorem proper_array : (array d).Proper ↔ d.Proper := by
  rw [proper_iff, parts, List.forall_mem_singleton]
  exact and_iff_right trivial

theorem proper_union : (union ds).Proper ↔ (2 ≤ ds.length ∧ ds.Nodup) ∧ ∀ d ∈ ds, d.Proper := by
  rw [proper_iff, parts, IsProper]

theorem proper_intersection :
    (intersection ds).Proper ↔ (1 ≤ ds.length ∧ ds.Nodup) ∧ ∀ d ∈ ds, d.Proper := by
  rw [proper_iff, parts, IsProper]

/-! ## Building -/

/-- Arrays keep a doc type proper, and improper, as far as the arrays of
members do. -/
theorem Spreads.proper_iff (h : Spreads f g) (hf : Function.Injective f)
    (hproper : ∀ d, (f d).Proper ↔ d.Proper) (d : DocType) : (g d).Proper ↔ d.Proper := by
  rcases isUnion_or_eq_union d with hd | ⟨ds, rfl⟩
  · rw [h.single d hd, proper_array]
  · rw [h.union, proper_union, proper_union, List.length_map, List.nodup_map_iff hf,
      List.forall_mem_map]
    simp only [hproper]

theorem proper_arrayOfMember (d : DocType) : (arrayOfMember d).Proper ↔ d.Proper :=
  spreads_arrayOfMember.proper_iff array_injective (fun _ => proper_array) d

/-- **The array of a doc type is proper exactly if the doc type is.** -/
theorem proper_arrayOf (d : DocType) : (arrayOf d).Proper ↔ d.Proper :=
  spreads_arrayOf.proper_iff arrayOfMember_injective proper_arrayOfMember d

theorem forall_mem_eraseDups {P : DocType → Prop} :
    (∀ d ∈ ds.eraseDups, P d) ↔ ∀ d ∈ ds, P d := by
  simp only [List.mem_eraseDups]

/-- One of several is proper if there is something to choose from. -/
theorem proper_oneOf : (oneOf ds).Proper ↔ ds ≠ [] ∧ ∀ d ∈ ds, d.Proper := by
  rcases eq_or_ne ds [] with rfl | hne
  · rw [oneOf, List.eraseDups_nil, proper_union]
    simp
  rw [and_iff_right hne, ← forall_mem_eraseDups]
  rcases oneOf_cases hne with ⟨d, hone, heq⟩ | ⟨htwo, heq⟩
  · rw [heq, hone, List.forall_mem_singleton]
  · rw [heq, proper_union]
    exact and_iff_right ⟨htwo, Distinct.nodup_eraseDups ds⟩

/-- So is all of several. -/
theorem proper_allOf : (allOf ds).Proper ↔ ds ≠ [] ∧ ∀ d ∈ ds, d.Proper := by
  have hsome : 1 ≤ ds.eraseDups.length ↔ ds ≠ [] :=
    List.length_pos_iff.trans (not_congr Distinct.eraseDups_eq_nil_iff)
  rw [allOf, proper_intersection, and_iff_left (Distinct.nodup_eraseDups ds), hsome,
    forall_mem_eraseDups]

end DocType

namespace Ty

/-- No union and no intersection in the type is of nothing. -/
def NoneEmpty (t : Ty) : Prop := t.Everywhere fun s => s.members? ≠ some []

end Ty

namespace Renderer

variable {config : Config} {classes : Hierarchy} {t : Ty}

section Doc

variable {doc : Ty → DocType} (hdoc : ∀ t, (standard config classes).docType t = .ok (doc t))
include hdoc

theorem proper_doc_of_isLeaf (hleaf : t.isLeaf = true) : (doc t).Proper := by
  obtain ⟨s, hs⟩ := exists_doc_of_isLeaf hdoc hleaf
  rw [hs]
  exact DocType.proper_name s

/-- **A doc type is proper exactly if nothing in the type is empty.** -/
theorem proper_doc_iff (t : Ty) : (doc t).Proper ↔ t.NoneEmpty := by
  induction t using Ty.induction with
  | step t ih =>
    rw [Ty.NoneEmpty, Ty.everywhere_iff]
    cases t with
    | array item =>
      rw [doc_array hdoc, DocType.proper_arrayOf, Ty.parts, List.forall_mem_singleton,
        ih item (by simp [Ty.parts])]
      exact (and_iff_right (by simp [Ty.members?])).symm
    | iterable item =>
      rw [doc_iterable hdoc, DocType.proper_arrayOf, Ty.parts, List.forall_mem_singleton,
        ih item (by simp [Ty.parts])]
      exact (and_iff_right (by simp [Ty.members?])).symm
    | union ts =>
      rw [doc_union hdoc, DocType.proper_oneOf, List.forall_mem_map]
      exact and_congr (by simp [Ty.members?]) (forall₂_congr ih)
    | intersection ts =>
      rw [doc_intersection hdoc, DocType.proper_allOf, List.forall_mem_map]
      exact and_congr (by simp [Ty.members?]) (forall₂_congr ih)
    | _ =>
      exact iff_of_true (proper_doc_of_isLeaf hdoc rfl)
        ⟨by simp [Ty.members?], by simp [Ty.parts]⟩

end Doc

/-- **Unions in doc types are proper.** By the default rules every type has
a doc type. In it, every union has two members or more and every
intersection one or more, and the members are pairwise different, exactly
if no union and no intersection in the type is empty. -/
theorem proper_docType_iff (config : Config) (classes : Hierarchy) (t : Ty) :
    ∃ d, (standard config classes).docType t = .ok d ∧ (d.Proper ↔ t.NoneEmpty) := by
  choose doc hdoc using exists_docType_standard config classes
  exact ⟨doc t, hdoc t, proper_doc_iff hdoc t⟩

end Renderer

end TypeScribe

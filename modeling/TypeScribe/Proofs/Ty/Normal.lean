import Mathlib.Logic.Relation
import TypeScribe.Proofs.Distinct
import TypeScribe.Ty.Induction
import TypeScribe.Ty.Normal
/-!
# Normal types

What occurs in a type is the type and what occurs in its parts, and a
condition may be asked of everything that occurs (`Ty.Everywhere`). A
union is proper if it has two members or more, all different and none a
union; in a normal type every union is proper, and every intersection in
the same sense. The raw constructors allow anything; the normalising ones
keep types normal (`Built.normal`).
-/

namespace TypeScribe

namespace Ty

/-! ## Occurrences -/

/-- One type occurs in another: as the type itself, or in one of its
parts. -/
def OccursIn (s t : Ty) : Prop := Relation.ReflTransGen (fun a b => a ∈ b.parts) s t

/-- A condition holds of all that occurs in a type. -/
def Everywhere (P : Ty → Prop) (t : Ty) : Prop := ∀ s, s.OccursIn t → P s

variable {P : Ty → Prop}

theorem Everywhere.here {t : Ty} (h : t.Everywhere P) : P t := h t .refl

theorem Everywhere.within {s t : Ty} (h : t.Everywhere P) (hs : s.OccursIn t) :
    s.Everywhere P :=
  fun r hr => h r (hr.trans hs)

theorem Everywhere.part {s t : Ty} (h : t.Everywhere P) (hs : s ∈ t.parts) : s.Everywhere P :=
  h.within (.single hs)

/-- **Everywhere is here and in all parts.** -/
theorem everywhere_iff {t : Ty} : t.Everywhere P ↔ P t ∧ ∀ s ∈ t.parts, s.Everywhere P := by
  constructor
  · intro h
    exact ⟨h.here, fun s hs => h.part hs⟩
  · rintro ⟨hhere, hparts⟩ s hs
    rcases hs.cases_tail with rfl | ⟨r, hsr, hrt⟩
    · exact hhere
    · exact hparts r hrt s hsr

/-- In a type without parts there is only the type. -/
theorem everywhere_of_parts_eq_nil {t : Ty} (ht : t.parts = []) (h : P t) : t.Everywhere P := by
  rw [everywhere_iff, ht]
  exact ⟨h, by simp⟩

theorem everywhere_array {t : Ty} : (array t).Everywhere P ↔ P (array t) ∧ t.Everywhere P := by
  rw [everywhere_iff, parts, List.forall_mem_singleton]

theorem everywhere_union {ts : List Ty} :
    (union ts).Everywhere P ↔ P (union ts) ∧ ∀ t ∈ ts, t.Everywhere P := by
  rw [everywhere_iff, parts]

/-! ## Proper unions and intersections -/

/-- Whether the type is an intersection, proper or not. -/
def isIntersection : Ty → Bool
  | intersection _ => true
  | _ => false

/-- The members of a proper union. -/
structure ProperUnion (ms : List Ty) : Prop where
  /-- One member would not need a union. -/
  two_le : 2 ≤ ms.length
  nodup : ms.Nodup
  /-- The members of a member would be members themselves. -/
  flat : ∀ s ∈ ms, s.isUnion = false

theorem ProperUnion.ne_nil {ms : List Ty} (h : ProperUnion ms) : ms ≠ [] := by
  have htwo := h.two_le
  exact List.ne_nil_of_length_pos (by omega)

/-- The members of a proper intersection. -/
structure ProperIntersection (ms : List Ty) : Prop where
  /-- One member would not need an intersection. -/
  two_le : 2 ≤ ms.length
  nodup : ms.Nodup
  /-- The members of a member would be members themselves. -/
  flat : ∀ s ∈ ms, s.isIntersection = false

/-- Every union in the type is proper. -/
def UnionsProper (t : Ty) : Prop := t.Everywhere fun s => ∀ ms, s = union ms → ProperUnion ms

/-- Every intersection in the type is proper. -/
def IntersectionsProper (t : Ty) : Prop :=
  t.Everywhere fun s => ∀ ms, s = intersection ms → ProperIntersection ms

/-- Every union and every intersection in the type is proper. -/
def Normal (t : Ty) : Prop := t.UnionsProper ∧ t.IntersectionsProper

theorem UnionsProper.properUnion {ms : List Ty} (h : (union ms).UnionsProper) : ProperUnion ms :=
  h.here ms rfl

theorem Normal.part {s t : Ty} (h : t.Normal) (hs : s ∈ t.parts) : s.Normal :=
  ⟨h.1.part hs, h.2.part hs⟩

/-- **A type is normal if it is proper itself and its parts are normal.** -/
theorem normal_iff {t : Ty} : t.Normal ↔
    (∀ ms, t = union ms → ProperUnion ms) ∧ (∀ ms, t = intersection ms → ProperIntersection ms) ∧
      ∀ s ∈ t.parts, s.Normal := by
  unfold Normal UnionsProper IntersectionsProper
  rw [everywhere_iff, everywhere_iff]
  constructor
  · rintro ⟨⟨hu, hus⟩, hi, his⟩
    exact ⟨hu, hi, fun s hs => ⟨hus s hs, his s hs⟩⟩
  · rintro ⟨hu, hi, hparts⟩
    exact ⟨⟨hu, fun s hs => (hparts s hs).1⟩, hi, fun s hs => (hparts s hs).2⟩

/-! ## The normalising constructors -/

theorem isUnion_or_eq_union (t : Ty) : t.isUnion = false ∨ ∃ ts, t = union ts := by
  cases t with
  | union ts => exact .inr ⟨ts, rfl⟩
  | _ => exact .inl rfl

/-- A type that is no union adds itself to a union. -/
theorem unionMembers_of_isUnion {t : Ty} (h : t.isUnion = false) : unionMembers t = [t] := by
  cases t with
  | union ts => cases h
  | _ => rfl

/-- Without unions among the members there is nothing to merge. -/
theorem flatMap_unionMembers {ts : List Ty} (h : ∀ t ∈ ts, t.isUnion = false) :
    ts.flatMap unionMembers = ts := by
  induction ts with
  | nil => rfl
  | cons t ts ih =>
    have ht := unionMembers_of_isUnion (h t (by simp))
    rw [List.flatMap_cons, ht, ih fun s hs => h s (by simp [hs]), List.singleton_append]

theorem isIntersection_or_eq_intersection (t : Ty) :
    t.isIntersection = false ∨ ∃ ts, t = intersection ts := by
  cases t with
  | intersection ts => exact .inr ⟨ts, rfl⟩
  | _ => exact .inl rfl

/-- A type that is no intersection adds itself to an intersection. -/
theorem intersectionMembers_of_isIntersection {t : Ty} (h : t.isIntersection = false) :
    intersectionMembers t = [t] := by
  cases t with
  | intersection ts => cases h
  | _ => rfl

theorem flatMap_intersectionMembers {ts : List Ty} (h : ∀ t ∈ ts, t.isIntersection = false) :
    ts.flatMap intersectionMembers = ts := by
  induction ts with
  | nil => rfl
  | cons t ts ih =>
    have ht := intersectionMembers_of_isIntersection (h t (by simp))
    rw [List.flatMap_cons, ht, ih fun s hs => h s (by simp [hs]), List.singleton_append]

/-- **The three outcomes of a normalised union**: nothing to choose from,
a single type, or a union of what is left. -/
theorem unionOf_cases (ts : List Ty) :
    ((ts.flatMap unionMembers).eraseDups = [] ∧ unionOf ts = never) ∨
    (∃ t, (ts.flatMap unionMembers).eraseDups = [t] ∧ unionOf ts = t) ∨
    (2 ≤ (ts.flatMap unionMembers).eraseDups.length ∧
      unionOf ts = union (ts.flatMap unionMembers).eraseDups) := by
  unfold unionOf
  match (ts.flatMap unionMembers).eraseDups with
  | [] => exact .inl ⟨rfl, rfl⟩
  | [t] => exact .inr (.inl ⟨t, rfl, rfl⟩)
  | s :: t :: rest => exact .inr (.inr ⟨by simp, rfl⟩)

theorem intersectionOf_cases (ts : List Ty) :
    ((ts.flatMap intersectionMembers).eraseDups = [] ∧ intersectionOf ts = mixed) ∨
    (∃ t, (ts.flatMap intersectionMembers).eraseDups = [t] ∧ intersectionOf ts = t) ∨
    (2 ≤ (ts.flatMap intersectionMembers).eraseDups.length ∧
      intersectionOf ts = intersection (ts.flatMap intersectionMembers).eraseDups) := by
  unfold intersectionOf
  match (ts.flatMap intersectionMembers).eraseDups with
  | [] => exact .inl ⟨rfl, rfl⟩
  | [t] => exact .inr (.inl ⟨t, rfl, rfl⟩)
  | s :: t :: rest => exact .inr (.inr ⟨by simp, rfl⟩)

/-- A proper union is its own normal form. -/
theorem ProperUnion.unionOf_eq {ms : List Ty} (h : ProperUnion ms) : unionOf ms = union ms := by
  have hmembers : (ms.flatMap unionMembers).eraseDups = ms := by
    rw [flatMap_unionMembers h.flat, Distinct.eraseDups_of_nodup h.nodup]
  have htwo := h.two_le
  rcases unionOf_cases ms with ⟨hnil, -⟩ | ⟨t, hone, -⟩ | ⟨-, heq⟩
  · rw [hmembers] at hnil
    simp [hnil] at htwo
  · rw [hmembers] at hone
    simp [hone] at htwo
  · rw [heq, hmembers]

/-- A proper intersection is its own normal form. -/
theorem ProperIntersection.intersectionOf_eq {ms : List Ty} (h : ProperIntersection ms) :
    intersectionOf ms = intersection ms := by
  have hmembers : (ms.flatMap intersectionMembers).eraseDups = ms := by
    rw [flatMap_intersectionMembers h.flat, Distinct.eraseDups_of_nodup h.nodup]
  have htwo := h.two_le
  rcases intersectionOf_cases ms with ⟨hnil, -⟩ | ⟨t, hone, -⟩ | ⟨-, heq⟩
  · rw [hmembers] at hnil
    simp [hnil] at htwo
  · rw [hmembers] at hone
    simp [hone] at htwo
  · rw [heq, hmembers]

/-! ## Types built by the normalising constructors -/

/-- Whether the type has no room for parts. -/
def isLeaf : Ty → Bool
  | array _ | iterable _ | union _ | intersection _ => false
  | _ => true

/-- A type that was made from leaves with arrays, iterables and the
normalising constructors. -/
inductive Built : Ty → Prop
  | leaf {t : Ty} : t.isLeaf = true → Built t
  | array {t : Ty} : Built t → Built (array t)
  | iterable {t : Ty} : Built t → Built (iterable t)
  | unionOf {ts : List Ty} : (∀ t ∈ ts, Built t) → Built (unionOf ts)
  | intersectionOf {ts : List Ty} : (∀ t ∈ ts, Built t) → Built (intersectionOf ts)

theorem Built.unionOf_leaves {ts : List Ty} (h : ts.all isLeaf = true) : (Ty.unionOf ts).Built :=
  .unionOf fun t ht => .leaf (List.all_eq_true.1 h t ht)

/-- What a normal type adds to a union is normal and no union. -/
theorem Normal.of_mem_unionMembers {s t : Ty} (h : t.Normal) (hs : s ∈ unionMembers t) :
    s.Normal ∧ s.isUnion = false := by
  cases t with
  | union ms => exact ⟨h.part hs, h.1.properUnion.flat s hs⟩
  | _ =>
    rw [unionMembers, List.mem_singleton] at hs
    · subst hs
      exact ⟨h, rfl⟩
    · simp

/-- What a normal type adds to an intersection is normal and no
intersection. -/
theorem Normal.of_mem_intersectionMembers {s t : Ty} (h : t.Normal)
    (hs : s ∈ intersectionMembers t) : s.Normal ∧ s.isIntersection = false := by
  cases t with
  | intersection ms => exact ⟨h.part hs, (h.2.here ms rfl).flat s hs⟩
  | _ =>
    rw [intersectionMembers, List.mem_singleton] at hs
    · subst hs
      exact ⟨h, rfl⟩
    · simp

/-- A normalised union of normal types is normal. -/
theorem normal_unionOf {ts : List Ty} (h : ∀ t ∈ ts, t.Normal) : (unionOf ts).Normal := by
  have hmem : ∀ s ∈ (ts.flatMap unionMembers).eraseDups, s.Normal ∧ s.isUnion = false := by
    intro s hs
    obtain ⟨t, ht, hst⟩ := List.mem_flatMap.1 (List.mem_eraseDups.1 hs)
    exact (h t ht).of_mem_unionMembers hst
  rcases unionOf_cases ts with ⟨-, heq⟩ | ⟨t, hone, heq⟩ | ⟨htwo, heq⟩
  · rw [heq, normal_iff]
    simp [parts]
  · rw [heq]
    exact (hmem t (by simp [hone])).1
  · rw [heq, normal_iff]
    refine ⟨fun ms hms => ?_, by simp, fun s hs => (hmem s hs).1⟩
    cases hms
    exact ⟨htwo, Distinct.nodup_eraseDups _, fun s hs => (hmem s hs).2⟩

theorem normal_intersectionOf {ts : List Ty} (h : ∀ t ∈ ts, t.Normal) :
    (intersectionOf ts).Normal := by
  have hmem : ∀ s ∈ (ts.flatMap intersectionMembers).eraseDups,
      s.Normal ∧ s.isIntersection = false := by
    intro s hs
    obtain ⟨t, ht, hst⟩ := List.mem_flatMap.1 (List.mem_eraseDups.1 hs)
    exact (h t ht).of_mem_intersectionMembers hst
  rcases intersectionOf_cases ts with ⟨-, heq⟩ | ⟨t, hone, heq⟩ | ⟨htwo, heq⟩
  · rw [heq, normal_iff]
    simp [parts]
  · rw [heq]
    exact (hmem t (by simp [hone])).1
  · rw [heq, normal_iff]
    refine ⟨by simp, fun ms hms => ?_, fun s hs => (hmem s hs).1⟩
    cases hms
    exact ⟨htwo, Distinct.nodup_eraseDups _, fun s hs => (hmem s hs).2⟩

/-- **The normalising constructors build normal types only.** -/
theorem Built.normal {t : Ty} (h : t.Built) : t.Normal := by
  induction h with
  | @leaf t hleaf =>
    rw [normal_iff]
    cases t <;> simp_all [isLeaf, parts]
  | array _ ih =>
    rw [normal_iff]
    simpa [parts] using ih
  | iterable _ ih =>
    rw [normal_iff]
    simpa [parts] using ih
  | unionOf _ ih => exact normal_unionOf ih
  | intersectionOf _ ih => exact normal_intersectionOf ih

end Ty

end TypeScribe

import TypeScribe.Proofs.Ty.Normal
/-!
# What a normalised type is made of

The normalising constructors look one level down only: a union among the
members of a union gives its members, and these are taken as they are.
That is enough because members were normalised before, so nothing is left
to flatten below. The types that can be built are then the normal ones, no
more and no fewer (`built_iff_normal`), and the members of a normalised
union are the first occurrences of all that the list had to offer
(`firstOccurrences_unionOf`), as are those of an intersection.
-/

namespace TypeScribe

namespace Ty

open Distinct (FirstOccurrences firstOccurrences_iff)

/-! ## Everything normal can be built -/

/-- Adding `null` is one way of building a union. -/
theorem Built.nullable {t : Ty} (h : t.Built) : (nullable t).Built := by
  refine .unionOf fun s hs => ?_
  rcases List.mem_pair.1 hs with rfl | rfl
  · exact h
  · exact .leaf rfl

/-- **The types that can be built are the normal ones.** -/
theorem built_iff_normal {t : Ty} : t.Built ↔ t.Normal := by
  refine ⟨Built.normal, ?_⟩
  induction t using Ty.induction with
  | step t ih =>
    intro hnormal
    have hparts : ∀ s ∈ t.parts, s.Built := fun s hs => ih s hs (hnormal.part hs)
    cases t with
    | array item => exact .array (hparts item (by simp [parts]))
    | iterable item => exact .iterable (hparts item (by simp [parts]))
    | union ms =>
      rw [← hnormal.1.properUnion.unionOf_eq]
      exact .unionOf hparts
    | intersection ms =>
      rw [← (hnormal.2.here ms rfl).intersectionOf_eq]
      exact .intersectionOf hparts
    | _ => exact .leaf rfl

/-! ## The members -/

/-- A type whose unions are proper has something to offer to a union. -/
theorem UnionsProper.unionMembers_ne_nil {t : Ty} (h : t.UnionsProper) : unionMembers t ≠ [] := by
  rcases t.isUnion_or_eq_union with hunion | ⟨ms, rfl⟩
  · rw [unionMembers_of_isUnion hunion]
    exact List.cons_ne_nil t []
  · exact h.properUnion.ne_nil

theorem IntersectionsProper.intersectionMembers_ne_nil {t : Ty} (h : t.IntersectionsProper) :
    intersectionMembers t ≠ [] := by
  rcases t.isIntersection_or_eq_intersection with hinter | ⟨ms, rfl⟩
  · rw [intersectionMembers_of_isIntersection hinter]
    exact List.cons_ne_nil t []
  · have htwo := (h.here ms rfl).two_le
    exact List.ne_nil_of_length_pos (by rw [intersectionMembers]; omega)

/-- And that is no union. -/
theorem UnionsProper.isUnion_of_mem_unionMembers {s t : Ty} (h : t.UnionsProper)
    (hs : s ∈ unionMembers t) : s.isUnion = false := by
  rcases t.isUnion_or_eq_union with hunion | ⟨ms, rfl⟩
  · rw [unionMembers_of_isUnion hunion, List.mem_singleton] at hs
    rw [hs, hunion]
  · exact h.properUnion.flat s hs

theorem IntersectionsProper.isIntersection_of_mem_intersectionMembers {s t : Ty}
    (h : t.IntersectionsProper) (hs : s ∈ intersectionMembers t) : s.isIntersection = false := by
  rcases t.isIntersection_or_eq_intersection with hinter | ⟨ms, rfl⟩
  · rw [intersectionMembers_of_isIntersection hinter, List.mem_singleton] at hs
    rw [hs, hinter]
  · exact (h.here ms rfl).flat s hs

/-- So a list of types that each offer something leaves something. -/
theorem eraseDups_flatMap_ne_nil {f : Ty → List Ty} {ts : List Ty} (hne : ts ≠ [])
    (hf : ∀ t ∈ ts, f t ≠ []) : (ts.flatMap f).eraseDups ≠ [] := by
  obtain ⟨t, ht⟩ := List.exists_mem_of_ne_nil ts hne
  obtain ⟨s, hs⟩ := List.exists_mem_of_ne_nil (f t) (hf t ht)
  exact List.ne_nil_of_mem (List.mem_eraseDups.2 (List.mem_flatMap.2 ⟨t, ht, hs⟩))

variable {ts : List Ty}

/-- **The members of a normalised union** are what its list offers, each
at its first place. -/
theorem unionMembers_unionOf (hts : ∀ t ∈ ts, t.UnionsProper) (hne : ts ≠ []) :
    unionMembers (unionOf ts) = (ts.flatMap unionMembers).eraseDups := by
  have hsome := eraseDups_flatMap_ne_nil hne fun t ht => (hts t ht).unionMembers_ne_nil
  rcases unionOf_cases ts with ⟨hnil, -⟩ | ⟨s, hone, heq⟩ | ⟨-, heq⟩
  · exact absurd hnil hsome
  · -- a single type that is left was a member before, and so is no union
    have hs : s ∈ (ts.flatMap unionMembers).eraseDups := by simp [hone]
    obtain ⟨t, ht, hmem⟩ := List.mem_flatMap.1 (List.mem_eraseDups.1 hs)
    have hflat : s.isUnion = false := (hts t ht).isUnion_of_mem_unionMembers hmem
    rw [heq, hone, unionMembers_of_isUnion hflat]
  · rw [heq, unionMembers]

/-- And of a normalised intersection. -/
theorem intersectionMembers_intersectionOf (hts : ∀ t ∈ ts, t.IntersectionsProper) (hne : ts ≠ []) :
    intersectionMembers (intersectionOf ts) = (ts.flatMap intersectionMembers).eraseDups := by
  have hsome := eraseDups_flatMap_ne_nil hne fun t ht => (hts t ht).intersectionMembers_ne_nil
  rcases intersectionOf_cases ts with ⟨hnil, -⟩ | ⟨s, hone, heq⟩ | ⟨-, heq⟩
  · exact absurd hnil hsome
  · have hs : s ∈ (ts.flatMap intersectionMembers).eraseDups := by simp [hone]
    obtain ⟨t, ht, hmem⟩ := List.mem_flatMap.1 (List.mem_eraseDups.1 hs)
    have hflat : s.isIntersection = false :=
      (hts t ht).isIntersection_of_mem_intersectionMembers hmem
    rw [heq, hone, intersectionMembers_of_isIntersection hflat]
  · rw [heq, intersectionMembers]

theorem firstOccurrences_unionOf (hts : ∀ t ∈ ts, t.Normal) (hne : ts ≠ []) :
    FirstOccurrences (ts.flatMap unionMembers) (unionMembers (unionOf ts)) :=
  firstOccurrences_iff.2 (unionMembers_unionOf (fun t ht => (hts t ht).1) hne)

theorem firstOccurrences_intersectionOf (hts : ∀ t ∈ ts, t.Normal) (hne : ts ≠ []) :
    FirstOccurrences (ts.flatMap intersectionMembers)
      (intersectionMembers (intersectionOf ts)) :=
  firstOccurrences_iff.2 (intersectionMembers_intersectionOf (fun t ht => (hts t ht).2) hne)

/-- None of them is made up, but that nothing to choose from is `never`. -/
theorem mem_unionMembers_unionOf (hts : ∀ t ∈ ts, t.Normal) {s : Ty}
    (hs : s ∈ unionMembers (unionOf ts)) : s = never ∨ ∃ t ∈ ts, s ∈ unionMembers t := by
  rcases eq_or_ne ts [] with rfl | hne
  · exact .inl (List.mem_singleton.1 hs)
  · exact .inr (List.mem_flatMap.1 (((firstOccurrences_unionOf hts hne).mem_iff s).1 hs))

/-- **The normalising constructors keep types normal**, and what they build
is settled by what they are given. From leaves by arrays, iterables,
unions, intersections and `null` just the normal types can be built. Of a
list of normal types the union has as its members the first occurrences of
what the list offers, a union its members and any other type itself, in
order; nothing is left of an empty list but `never`. Intersections are
made in the same way, and end in `mixed`. -/
theorem normalising_constructors :
    (∀ t : Ty, t.Built ↔ t.Normal) ∧
    (∀ t : Ty, t.Built → (nullable t).Built) ∧
    (∀ ts : List Ty, (∀ t ∈ ts, t.Normal) → (unionOf ts).Normal ∧ (intersectionOf ts).Normal) ∧
    (∀ ts : List Ty, (∀ t ∈ ts, t.Normal) → ts ≠ [] →
      FirstOccurrences (ts.flatMap unionMembers) (unionMembers (unionOf ts)) ∧
      FirstOccurrences (ts.flatMap intersectionMembers)
        (intersectionMembers (intersectionOf ts))) ∧
    unionOf [] = never ∧ intersectionOf [] = mixed :=
  ⟨fun _ => built_iff_normal, fun _ ht => ht.nullable,
    fun _ hts => ⟨normal_unionOf hts, normal_intersectionOf hts⟩,
    fun _ hts hne => ⟨firstOccurrences_unionOf hts hne, firstOccurrences_intersectionOf hts hne⟩,
    unionOf_nil, intersectionOf_nil⟩

/-- Two unions, which share `null`, and an intersection, which stays. -/
theorem normalising_constructors_shared :
    (∀ t ∈ [union [array mixed, null], intersection [anyObject, closure], union [null, void]],
      t.Normal) ∧
    (union [array mixed, null, intersection [anyObject, closure], void]).Normal ∧
    FirstOccurrences [array mixed, null, intersection [anyObject, closure], null, void]
      [array mixed, null, intersection [anyObject, closure], void] := by
  have hleaf : ∀ t : Ty, t.isLeaf = true → t.Normal := fun t ht => (Built.leaf ht).normal
  have harray : (array mixed).Normal := (Built.leaf rfl).array.normal
  have hfirst : (union [array mixed, null]).Normal := by
    have hmembers : ∀ t ∈ [array mixed, null], t.Normal := by simp [harray, hleaf null rfl]
    exact normal_unionOf hmembers
  have hboth : (intersection [anyObject, closure]).Normal := by
    have hmembers : ∀ t ∈ [anyObject, closure], t.Normal := by
      simp [hleaf anyObject rfl, hleaf closure rfl]
    exact normal_intersectionOf hmembers
  have hsecond : (union [null, void]).Normal := by
    have hmembers : ∀ t ∈ [null, void], t.Normal := by simp [hleaf null rfl, hleaf void rfl]
    exact normal_unionOf hmembers
  have hts : ∀ t ∈ [union [array mixed, null], intersection [anyObject, closure],
      union [null, void]], t.Normal := by
    simp [hfirst, hboth, hsecond]
  obtain ⟨-, -, hnormal, hmembers, -⟩ := normalising_constructors
  exact ⟨hts, (hnormal _ hts).1, (hmembers _ hts (by simp)).1⟩

end Ty

end TypeScribe

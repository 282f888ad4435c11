import TypeScribe.Proofs.Ty.Members
/-!
# Unions of unions

A union is normalised one level deep, and that is why its members may be
put together in any grouping: what a group offers after it was normalised
are the first occurrences of what it offered before, and first occurrences
are settled part by part. So normalising groups of types first and then
what came of the groups gives what normalising all of them at once gives
(`unionOf_map_unionOf`), as long as no group is empty, since an empty one
would put in a `never`. The types may be anything in which unions are
proper; a union within a union is the one thing that a second round of
normalising still takes apart.
-/

namespace TypeScribe

namespace Ty

variable {ts us : List Ty} {groups : List (List Ty)}

/-! ## What decides a normalised type -/

/-- What a list has to offer, each at its first place, is all that its
union depends on. -/
theorem unionOf_congr
    (h : (ts.flatMap unionMembers).eraseDups = (us.flatMap unionMembers).eraseDups) :
    unionOf ts = unionOf us := by
  rw [unionOf, unionOf, h]

theorem intersectionOf_congr
    (h : (ts.flatMap intersectionMembers).eraseDups =
      (us.flatMap intersectionMembers).eraseDups) :
    intersectionOf ts = intersectionOf us := by
  rw [intersectionOf, intersectionOf, h]

/-- Where every group keeps what it offers, all groups together keep what
all their types offer. -/
theorem eraseDups_flatMap_groups {members : Ty → List Ty} {combine : List Ty → Ty}
    (h : ∀ g ∈ groups, members (combine g) = (g.flatMap members).eraseDups) :
    ((groups.map combine).flatMap members).eraseDups =
      (groups.flatten.flatMap members).eraseDups := by
  have hgroup : ∀ g ∈ groups, (members (combine g)).eraseDups = (g.flatMap members).eraseDups := by
    intro g hg
    rw [h g hg, Distinct.eraseDups_eraseDups]
  calc ((groups.map combine).flatMap members).eraseDups
      = (groups.flatMap fun g => members (combine g)).eraseDups := by rw [List.flatMap_map]
    _ = (groups.flatMap fun g => g.flatMap members).eraseDups :=
        Distinct.eraseDups_flatMap_congr hgroup
    _ = (groups.flatten.flatMap members).eraseDups := by
        rw [List.flatten_eq_flatMap, List.flatMap_assoc]
        rfl

/-! ## Grouping -/

/-- **Unions may be grouped.** -/
theorem unionOf_map_unionOf (hproper : ∀ t ∈ groups.flatten, t.UnionsProper)
    (hgroups : ∀ g ∈ groups, g ≠ []) :
    unionOf (groups.map unionOf) = unionOf groups.flatten := by
  refine unionOf_congr (eraseDups_flatMap_groups fun g hg => ?_)
  exact unionMembers_unionOf (fun t ht => hproper t (List.mem_flatten_of_mem hg ht)) (hgroups g hg)

/-- And intersections. -/
theorem intersectionOf_map_intersectionOf
    (hproper : ∀ t ∈ groups.flatten, t.IntersectionsProper) (hgroups : ∀ g ∈ groups, g ≠ []) :
    intersectionOf (groups.map intersectionOf) = intersectionOf groups.flatten := by
  refine intersectionOf_congr (eraseDups_flatMap_groups fun g hg => ?_)
  exact intersectionMembers_intersectionOf (fun t ht => hproper t (List.mem_flatten_of_mem hg ht))
    (hgroups g hg)

/-- A type is its own union, if it is not one that needs normalising. -/
theorem UnionsProper.unionOf_self {t : Ty} (h : t.UnionsProper) : unionOf [t] = t := by
  rcases t.isUnion_or_eq_union with hunion | ⟨ms, rfl⟩
  · exact unionOf_singleton hunion
  · have hsame : unionOf [union ms] = unionOf ms := by
      refine unionOf_congr ?_
      rw [List.flatMap_singleton, unionMembers, flatMap_unionMembers h.properUnion.flat]
    rw [hsame, h.properUnion.unionOf_eq]

theorem IntersectionsProper.intersectionOf_self {t : Ty} (h : t.IntersectionsProper) :
    intersectionOf [t] = t := by
  rcases t.isIntersection_or_eq_intersection with hinter | ⟨ms, rfl⟩
  · rw [intersectionOf, List.flatMap_singleton, intersectionMembers_of_isIntersection hinter]
    rfl
  · have hproper : ProperIntersection ms := h.here ms rfl
    have hsame : intersectionOf [intersection ms] = intersectionOf ms := by
      refine intersectionOf_congr ?_
      rw [List.flatMap_singleton, intersectionMembers, flatMap_intersectionMembers hproper.flat]
    rw [hsame, hproper.intersectionOf_eq]

/-- What is `null` or something else already, whatever it is, does not
change when `null` is added once more. -/
theorem nullable_nullable (t : Ty) : nullable (nullable t) = nullable t := by
  have hnull : null ∈ [t, null].flatMap unionMembers := by simp [unionMembers]
  have hmembers : unionMembers (nullable t) = ([t, null].flatMap unionMembers).eraseDups := by
    rcases unionOf_cases [t, null] with ⟨hnil, -⟩ | ⟨s, hone, heq⟩ | ⟨-, heq⟩
    · rw [Distinct.eraseDups_eq_nil_iff] at hnil
      simp [hnil] at hnull
    · -- the only type that is left is `null`
      rw [← List.mem_eraseDups, hone, List.mem_singleton] at hnull
      rw [nullable, heq, hone, ← hnull, unionMembers]
      simp
    · rw [nullable, heq, unionMembers]
  have hagain : [nullable t, null].flatMap unionMembers =
      ([t, null].flatMap unionMembers).eraseDups ++ [null] := by
    rw [List.flatMap_cons, hmembers, List.flatMap_singleton]
    rfl
  refine unionOf_congr ?_
  rw [hagain, Distinct.eraseDups_concat, if_pos (List.mem_eraseDups.2 hnull),
    Distinct.eraseDups_eraseDups]

/-- **Grouping does not matter.** However a list of types is cut into
groups, none of them empty, the union of the unions of the groups is the
union of the list, and so it is for intersections; the one needs the unions
in the types to be proper and the other the intersections. A group may
leave a single type, and groups may share what they leave. So a normalised
type is its own union and its own intersection, and to add `null` twice is
to add it once. -/
theorem normalised_in_groups :
    (∀ groups : List (List Ty), (∀ t ∈ groups.flatten, t.UnionsProper) → (∀ g ∈ groups, g ≠ []) →
      unionOf (groups.map unionOf) = unionOf groups.flatten) ∧
    (∀ groups : List (List Ty), (∀ t ∈ groups.flatten, t.IntersectionsProper) →
      (∀ g ∈ groups, g ≠ []) →
      intersectionOf (groups.map intersectionOf) = intersectionOf groups.flatten) ∧
    (∀ t : Ty, t.UnionsProper → unionOf [t] = t) ∧
    (∀ t : Ty, t.IntersectionsProper → intersectionOf [t] = t) ∧
    ∀ t : Ty, nullable (nullable t) = nullable t :=
  ⟨fun _ hproper hgroups => unionOf_map_unionOf hproper hgroups,
    fun _ hproper hgroups => intersectionOf_map_intersectionOf hproper hgroups,
    fun _ ht => ht.unionOf_self, fun _ ht => ht.intersectionOf_self, nullable_nullable⟩

/-- Three groups. All that the second leaves came before, and the third
begins with what the first ended with. -/
theorem normalised_in_groups_overlapping :
    (∀ t ∈ [scalar .int, union [null, scalar .int], scalar .int, union [null, void], callable],
      t.UnionsProper) ∧
    unionOf [unionOf [scalar .int, union [null, scalar .int]], unionOf [scalar .int],
      unionOf [union [null, void], callable]] = union [scalar .int, null, void, callable] := by
  have hleaf : ∀ t : Ty, t.isLeaf = true → t.UnionsProper := fun t ht => (Built.leaf ht).normal.1
  have hunion : ∀ ts : List Ty, ts.all isLeaf = true → (unionOf ts).UnionsProper :=
    fun ts hts => (Built.unionOf_leaves hts).normal.1
  have hfirst : (union [null, scalar .int]).UnionsProper := hunion [null, scalar .int] rfl
  have hlast : (union [null, void]).UnionsProper := hunion [null, void] rfl
  have hproper : ∀ t ∈ [scalar .int, union [null, scalar .int], scalar .int, union [null, void],
      callable], t.UnionsProper := by
    simp [hfirst, hlast, hleaf (scalar .int) rfl, hleaf callable rfl]
  obtain ⟨hunions, -⟩ := normalised_in_groups
  have hgrouped := hunions [[scalar .int, union [null, scalar .int]], [scalar .int],
    [union [null, void], callable]] hproper (by simp)
  exact ⟨hproper, hgrouped⟩

/-- Unions that are not proper lose one more layer in each round. -/
example : unionOf [unionOf [union [union [union [null, void]]]]] ≠
    unionOf [union [union [union [null, void]]]] := by
  decide

end Ty

end TypeScribe

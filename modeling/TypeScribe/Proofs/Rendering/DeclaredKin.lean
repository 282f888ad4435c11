import Mathlib.Data.List.Basic
import Mathlib.Data.Nat.Find
import TypeScribe.Proofs.Classes.Ancestry
import TypeScribe.Proofs.Rendering.CommonAncestor
import TypeScribe.Proofs.Rendering.NestedUnions
/-!
# The class that stands for a union

Before there are unions in hints, a union that is neither one of arrays
nor a type with `null` is hinted by one of its members, if they are all
classes: the first that is kin to all others. Kinship is read off the
declarations here, whatever cycles and spellings they have
(`Hierarchy.Kin`). It is asked of places, not of names, so a class that
stands in the union twice has to be kin to itself, which it is if it was
ever mentioned.
-/

namespace TypeScribe

namespace Hierarchy

/-- Both names were mentioned, and declared edges lead from one of them to
the other. -/
def Kin (ds : List (String × List String)) (a b : String) : Prop := Ancestry ds a b ∨ Ancestry ds b a

/-- Being related is kinship by the declarations. -/
theorem related_ofDeclarations {ds : List (String × List String)} {a b : String} :
    (ofDeclarations ds).related a b = true ↔ Kin ds a b := by
  rw [related, Bool.or_eq_true, isSubclassOf_ofDeclarations, isSubclassOf_ofDeclarations]
  rfl

end Hierarchy

/-- Nothing stands beside `null` unless exactly one of two members is
`null`. -/
theorem Ty.besideNull?_eq_none_iff {ts : List Ty} :
    besideNull? ts = none ↔ ¬ (ts.length = 2 ∧ ts.count null = 1) := by
  rw [Option.eq_none_iff_forall_ne_some]
  simp only [ne_eq, besideNull?_eq_some_iff]
  match ts with
  | [] => simp
  | [t] => simp
  | [s, t] =>
    by_cases hs : s = null <;> by_cases ht : t = null <;> grind
  | s :: t :: r :: rest => simp

namespace Renderer

/-! ## The first of several places -/

/-- **A search of the places of a row** finds the first that meets the
condition. -/
theorem find?_zipIdx_eq_some_iff {α : Type} {l : List α} {p : α × Nat → Bool} {a : α} {i : Nat} :
    l.zipIdx.find? p = some (a, i) ↔
      l[i]? = some a ∧ p (a, i) = true ∧ ∀ k < i, ∀ b, l[k]? = some b → p (b, k) = false := by
  rw [List.find?_eq_some_iff_getElem]
  simp only [List.getElem_zipIdx, Nat.zero_add, Prod.mk.injEq, Bool.not_eq_true',
    List.length_zipIdx]
  constructor
  · rintro ⟨hp, j, hj, ⟨ha, rfl⟩, hbefore⟩
    refine ⟨List.getElem?_eq_some_iff.2 ⟨hj, ha⟩, hp, fun k hk b hb => ?_⟩
    obtain ⟨-, rfl⟩ := List.getElem?_eq_some_iff.1 hb
    exact hbefore k hk
  · rintro ⟨ha, hp, hbefore⟩
    obtain ⟨hi, ha⟩ := List.getElem?_eq_some_iff.1 ha
    refine ⟨hp, i, hi, ⟨ha, rfl⟩, fun k hk => hbefore k hk _ ?_⟩
    exact List.getElem?_eq_getElem (by omega)

/-! ## Kinship to all others -/

/-- The class at a place of a row is kin to the classes at all other
places. -/
structure KinToOthers (ds : List (String × List String)) (refs : List ClassRef) (i : Nat)
    (ref : ClassRef) : Prop where
  at_place : refs[i]? = some ref
  kin : ∀ j other, j ≠ i → refs[j]? = some other → Hierarchy.Kin ds ref.identity other.identity

/-- The first place of a row with a class that is kin to all others. -/
structure FirstKin (ds : List (String × List String)) (refs : List ClassRef) (i : Nat)
    (ref : ClassRef) : Prop extends KinToOthers ds refs i ref where
  first : ∀ k < i, ∀ r, ¬ KinToOthers ds refs k r

variable {ds : List (String × List String)} {refs : List ClassRef} {i : Nat} {ref : ClassRef}

/-- If there is such a class, one is the first. -/
theorem exists_firstKin (h : KinToOthers ds refs i ref) : ∃ k r, FirstKin ds refs k r := by
  classical
  have hsome : ∃ k r, KinToOthers ds refs k r := ⟨i, ref, h⟩
  obtain ⟨r, hr⟩ := Nat.find_spec hsome
  exact ⟨Nat.find hsome, r, hr, fun k hk r' hr' => Nat.find_min hsome hk ⟨r', hr'⟩⟩

/-- Whether the name at a place of a row is related to those at all other
places. -/
def relatedToOthers (h : Hierarchy) (names : List String) (x : String × Nat) : Bool :=
  names.zipIdx.all fun y => x.2 == y.2 || h.related x.1 y.1

/-- **What the renderer asks of a place is kinship to all others.** -/
theorem relatedToOthers_iff (hat : refs[i]? = some ref) :
    relatedToOthers (.ofDeclarations ds) (refs.map ClassRef.identity) (ref.identity, i) = true ↔
      KinToOthers ds refs i ref := by
  unfold relatedToOthers
  rw [List.all_eq_true]
  constructor
  · intro hall
    refine ⟨hat, fun j other hne hother => Hierarchy.related_ofDeclarations.1 ?_⟩
    have hmem : (other.identity, j) ∈ (refs.map ClassRef.identity).zipIdx := by
      rw [List.mem_zipIdx_iff_getElem?, List.getElem?_map, hother, Option.map_some]
    have hpair := hall _ hmem
    simpa [hne.symm] using hpair
  · rintro ⟨-, hkin⟩ ⟨name, j⟩ hmem
    rw [List.mem_zipIdx_iff_getElem?, List.getElem?_map, Option.map_eq_some_iff] at hmem
    obtain ⟨other, hother, rfl⟩ := hmem
    by_cases hji : i = j
    · simp [hji]
    · have hrelated := Hierarchy.related_ofDeclarations.2 (hkin j other (Ne.symm hji) hother)
      simp [hrelated]

/-- **Among classes, the common ancestor is the first that is kin to all
others.** -/
theorem commonAncestor?_objects {m : Renderer} {a : TypeHint}
    (hclasses : m.classes = .ofDeclarations ds) :
    m.commonAncestor? (refs.map .object) = some a ↔
      ∃ i ref, FirstKin ds refs i ref ∧ a = .rooted (Text.unrooted ref.identity) := by
  have hnames : ((refs.map Ty.object).mapM fun t => t.classRef?.map ClassRef.identity) =
      some (refs.map ClassRef.identity) := by
    rw [mapM_eq_some_iff, List.map_map, List.map_map]
    rfl
  have hsearch : m.commonAncestor? (refs.map .object) =
      ((refs.map ClassRef.identity).zipIdx.find?
        (relatedToOthers (.ofDeclarations ds) (refs.map ClassRef.identity))).map
          fun x => .rooted (Text.unrooted x.1) := by
    rw [commonAncestor?, hnames, hclasses, Option.map_eq_bind]
    rfl
  rw [hsearch, Option.map_eq_some_iff]
  constructor
  · rintro ⟨⟨name, i⟩, hfound, rfl⟩
    obtain ⟨hat, hrelated, hbefore⟩ := find?_zipIdx_eq_some_iff.1 hfound
    rw [List.getElem?_map, Option.map_eq_some_iff] at hat
    obtain ⟨ref, hat, rfl⟩ := hat
    refine ⟨i, ref, ⟨(relatedToOthers_iff hat).1 hrelated, fun k hk r hr => ?_⟩, rfl⟩
    have hnot := hbefore k hk r.identity (by rw [List.getElem?_map, hr.at_place, Option.map_some])
    rw [(relatedToOthers_iff hr.at_place).2 hr] at hnot
    cases hnot
  · rintro ⟨i, ref, hkin, rfl⟩
    refine ⟨(ref.identity, i), find?_zipIdx_eq_some_iff.2 ⟨?_, ?_, fun k hk name hname => ?_⟩, rfl⟩
    · rw [List.getElem?_map, hkin.at_place, Option.map_some]
    · exact (relatedToOthers_iff hkin.at_place).2 hkin.toKinToOthers
    · rw [List.getElem?_map, Option.map_eq_some_iff] at hname
      obtain ⟨r, hr, rfl⟩ := hname
      rw [Bool.eq_false_iff]
      exact fun hrelated => hkin.first k hk r ((relatedToOthers_iff hr).1 hrelated)

/-! ## Unions -/

/-- Either all members of a union are classes, or one is none. -/
theorem objects_or_exists (ts : List Ty) :
    (∃ refs : List ClassRef, ts = refs.map .object) ∨ ∃ t ∈ ts, ∀ ref, t ≠ .object ref := by
  cases hrefs : ts.mapM Ty.classRef? with
  | some refs => exact .inl ⟨refs, eq_map_object (mapM_eq_some_iff.1 hrefs)⟩
  | none =>
    obtain ⟨t, ht, hnone⟩ := mapM_eq_none_iff.1 hrefs
    refine .inr ⟨t, ht, ?_⟩
    rintro ref rfl
    cases hnone

theorem map_object_injective : Function.Injective (List.map Ty.object) :=
  List.map_injective_iff.2 fun _ _ => Ty.object.inj

/-- **Without unions in hints, a union is hinted by a class that is kin to
all its members, or not at all.** This holds of every union that is not
one of arrays and not a type with `null`, of however many members. It never
fails. It has a hint only if all members are classes, and then the hint is
the first class that is kin to those at all other places, by the
declarations; without one, or with a member that is no class, there is no
hint. -/
theorem hint_of_firstKin {c : Config} {ts : List Ty} (ds : List (String × List String))
    (slot : Slot) (hversion : c.supports .unionTypes = false)
    (harrays : ∃ t ∈ ts, t.isArrayLike c = false)
    (hpair : ¬ (ts.length = 2 ∧ ts.count .null = 1)) :
    ∃ a?, (standard c (.ofDeclarations ds)).hint slot (.union ts) = .ok a? ∧
      (∀ a, a? = some a ↔ ∃ refs i ref, ts = refs.map .object ∧ FirstKin ds refs i ref ∧
        a = .rooted (Text.unrooted ref.identity)) ∧
      (a? = none ↔ (∃ t ∈ ts, ∀ ref, t ≠ .object ref) ∨
        ∃ refs, ts = refs.map .object ∧ ∀ i ref, ¬ KinToOthers ds refs i ref) := by
  have hall : ts.all (Ty.isArrayLike c) = false := List.all_eq_false.2 (by simpa using harrays)
  have hsome : ∀ a, (standard c (.ofDeclarations ds)).commonAncestor? ts = some a ↔
      ∃ refs i ref, ts = refs.map .object ∧ FirstKin ds refs i ref ∧
        a = .rooted (Text.unrooted ref.identity) := by
    intro a
    constructor
    · intro ha
      rcases objects_or_exists ts with ⟨refs, rfl⟩ | ⟨t, ht, hnot⟩
      · obtain ⟨i, ref, hkin, heq⟩ := (commonAncestor?_objects rfl).1 ha
        exact ⟨refs, i, ref, rfl, hkin, heq⟩
      · obtain ⟨ref, hobject⟩ := exists_object_of_commonAncestor? ha ht
        exact absurd hobject (hnot ref)
    · rintro ⟨refs, i, ref, rfl, hkin, heq⟩
      exact (commonAncestor?_objects rfl).2 ⟨i, ref, hkin, heq⟩
  refine ⟨(standard c (.ofDeclarations ds)).commonAncestor? ts, ?_, hsome, ?_⟩
  · rw [hint_union, hall, Ty.besideNull?_eq_none_iff.2 hpair, hversion]
    rfl
  · rw [Option.eq_none_iff_forall_ne_some]
    constructor
    · intro hnone
      rcases objects_or_exists ts with ⟨refs, rfl⟩ | hnot
      · refine .inr ⟨refs, rfl, fun i ref hkin => ?_⟩
        obtain ⟨k, r, hfirst⟩ := exists_firstKin hkin
        exact hnone _ ((hsome _).2 ⟨refs, k, r, rfl, hfirst, rfl⟩)
      · exact .inl hnot
    · intro hwithout a ha
      obtain ⟨refs, i, ref, rfl, hkin, -⟩ := (hsome a).1 ha
      rcases hwithout with ⟨t, ht, hnot⟩ | ⟨others, heq, hnone⟩
      · obtain ⟨r, -, hr⟩ := List.mem_map.1 ht
        exact hnot r hr.symm
      · obtain rfl := map_object_injective heq
        exact hnone i ref hkin.toKinToOthers

/-- Ducks are birds and swimmers, which are not kin to each other. -/
def ducks : List (String × List String) := [("Duck", ["Bird", "\\Swimmer"])]

/-- The three as the members of a union, in other spellings. -/
def duckAndParents : List ClassRef := [.named "bird", .named "\\duck", .fullyQualified "SWIMMER"]

theorem ancestry_duck {cls : String} (hcls : cls = "bird" ∨ cls = "SWIMMER") :
    Hierarchy.Ancestry ducks "\\duck" cls := by
  have hduck : ("Duck", ["Bird", "\\Swimmer"]) ∈ ducks := List.mem_singleton_self _
  have hclass : Hierarchy.Mentions ducks "\\duck" := ⟨_, hduck, .inl (by decide)⟩
  obtain ⟨p, hp, hsame⟩ : ∃ p ∈ ["Bird", "\\Swimmer"], Text.SameName p cls := by
    rcases hcls with rfl | rfl
    · exact ⟨"Bird", by simp, by decide⟩
    · exact ⟨"\\Swimmer", by simp, by decide +kernel⟩
  have hedge : Hierarchy.DeclaredEdge ducks (Text.fold "\\duck") (Text.fold cls) :=
    ⟨_, hduck, by decide, p, hp, hsame⟩
  exact ⟨hclass, ⟨_, hduck, .inr ⟨p, hp, hsame⟩⟩, .single hedge⟩

/-- Neither parent has ancestors. -/
theorem not_ancestry_parent {a b : String} (hclass : Text.fold a ≠ Text.fold "Duck")
    (hne : Text.fold a ≠ Text.fold b) : ¬ Hierarchy.Ancestry ducks a b := by
  rintro ⟨-, -, hpath⟩
  rcases hpath.cases_head with heq | ⟨c, ⟨d, hd, hcls, -⟩, -⟩
  · exact hne heq
  · rw [ducks, List.mem_singleton] at hd
    subst hd
    exact hclass hcls.symm

theorem firstKin_duck : FirstKin ducks duckAndParents 1 (.named "\\duck") where
  at_place := rfl
  kin j other hne hother := by
    match j with
    | 0 =>
      cases hother
      exact .inl (ancestry_duck (.inl rfl))
    | 1 => exact absurd rfl hne
    | 2 =>
      cases hother
      exact .inl (ancestry_duck (.inr rfl))
    | j + 3 => cases hother
  first k hk r hkin := by
    obtain rfl : k = 0 := by omega
    obtain rfl : .named "bird" = r := Option.some.inj hkin.at_place
    rcases hkin.kin 2 (.fullyQualified "SWIMMER") (by decide) rfl with hup | hup
    · exact not_ancestry_parent (by decide) (by decide) hup
    · exact not_ancestry_parent (by decide) (by decide) hup

/-- The duck stands for all three: it is the first to be kin to both
others, though not an ancestor of theirs. -/
theorem hint_of_firstKin_duck :
    Config.supports { version := ⟨70400, by decide⟩ } .unionTypes = false ∧
    (∃ t ∈ duckAndParents.map Ty.object,
      t.isArrayLike { version := ⟨70400, by decide⟩ } = false) ∧
    ¬ ((duckAndParents.map Ty.object).length = 2 ∧
      (duckAndParents.map Ty.object).count .null = 1) ∧
    (standard { version := ⟨70400, by decide⟩ } (.ofDeclarations ducks)).hint .param
      (.union (duckAndParents.map .object)) = .ok (some (.rooted "duck")) := by
  have hversion : Config.supports { version := ⟨70400, by decide⟩ } .unionTypes = false := rfl
  have harrays : ∃ t ∈ duckAndParents.map Ty.object,
      t.isArrayLike { version := ⟨70400, by decide⟩ } = false :=
    ⟨.object (.named "bird"), by simp [duckAndParents], rfl⟩
  have hpair : ¬ ((duckAndParents.map Ty.object).length = 2 ∧
      (duckAndParents.map Ty.object).count .null = 1) := by simp [duckAndParents]
  obtain ⟨a?, hhint, hsome, -⟩ := hint_of_firstKin ducks .param hversion harrays hpair
  refine ⟨hversion, harrays, hpair, ?_⟩
  rw [hhint, (hsome _).2 ⟨duckAndParents, 1, .named "\\duck", rfl, firstKin_duck, rfl⟩]
  rfl

end Renderer

end TypeScribe

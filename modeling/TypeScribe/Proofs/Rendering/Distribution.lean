import Mathlib.Data.List.Nodup
import Mathlib.Logic.Relation
import TypeScribe.Proofs.Rendering.DocFailure
/-!
# Arrays of unions in doc types

An array is moved inside the union it is made of, and inside the unions
among the members of that union, and no further. Doc types have deeper
unions: an array of a union is itself documented as a union, so each array
in a union adds a level. An array of three unions directly inside one
another is left with an array around the innermost
(`DocType.distributed_arrayOf`), and that is the only way in which an
array comes to stand around a union (`distributed_docType`).
-/

namespace TypeScribe

namespace DocType

variable {d e : DocType} {ds : List DocType} {n : Nat}

/-! ## What occurs in a doc type -/

/-- The doc types a doc type is directly made of. -/
def parts : DocType → List DocType
  | array d => [d]
  | union ds | intersection ds => ds
  | name _ => []

/-- One doc type stands in another, at any depth. -/
def OccursIn (e d : DocType) : Prop := Relation.ReflTransGen (fun x y => x ∈ y.parts) e d

/-- Nowhere in the doc type is there an array directly around a union. -/
def Distributed (d : DocType) : Prop := ∀ ds, ¬ (array (union ds)).OccursIn d

/-- **Arrays are distributed** at the top and in all parts. -/
theorem distributed_iff :
    d.Distributed ↔ (∀ ds, array (union ds) ≠ d) ∧ ∀ p ∈ d.parts, p.Distributed := by
  unfold Distributed OccursIn
  constructor
  · intro h
    refine ⟨fun ds heq => h ds (heq ▸ .refl), fun p hp ds hds => h ds (hds.tail hp)⟩
  · rintro ⟨htop, hparts⟩ ds hds
    rcases hds.cases_tail with heq | ⟨p, hp, hpart⟩
    · exact htop ds heq.symm
    · exact hparts p hpart ds hp

theorem distributed_name (s : String) : (name s).Distributed := by
  rw [distributed_iff]
  simp [parts]

theorem distributed_array : (array d).Distributed ↔ d.isUnion = false ∧ d.Distributed := by
  rw [distributed_iff, parts, List.forall_mem_singleton]
  refine and_congr_left fun _ => ?_
  cases d <;> simp [isUnion]

theorem distributed_union : (union ds).Distributed ↔ ∀ d ∈ ds, d.Distributed := by
  rw [distributed_iff, parts]
  simp

theorem distributed_intersection : (intersection ds).Distributed ↔ ∀ d ∈ ds, d.Distributed := by
  rw [distributed_iff, parts]
  simp

theorem distributed_oneOf : (oneOf ds).Distributed ↔ ∀ d ∈ ds, d.Distributed := by
  have hkept : (∀ d ∈ ds.eraseDups, d.Distributed) ↔ ∀ d ∈ ds, d.Distributed :=
    forall_congr' fun d => by rw [List.mem_eraseDups]
  rw [← hkept, oneOf]
  split
  · rename_i d hone
    rw [hone, List.forall_mem_singleton]
  · rw [distributed_union]

theorem distributed_allOf : (allOf ds).Distributed ↔ ∀ d ∈ ds, d.Distributed := by
  rw [allOf, distributed_intersection]
  exact forall_congr' fun d => by rw [List.mem_eraseDups]

/-! ## Unions inside one another -/

/-- A number of unions, each a member of the one before. -/
inductive Nested : Nat → DocType → Prop
  | union (ds : List DocType) : Nested 1 (union ds)
  | member {n : Nat} {d : DocType} {ds : List DocType} : d ∈ ds → Nested n d →
      Nested (n + 1) (.union ds)

theorem Nested.isUnion (h : d.Nested n) : d.isUnion = true := by
  cases h <;> rfl

theorem Nested.pos (h : d.Nested n) : 1 ≤ n := by
  cases h <;> omega

theorem not_nested (h : d.isUnion = false) : ¬ d.Nested n := by
  intro hn
  rw [hn.isUnion] at h
  cases h

theorem nested_one_iff : d.Nested 1 ↔ d.isUnion = true := by
  refine ⟨Nested.isUnion, fun h => ?_⟩
  cases d with
  | union ds => exact .union ds
  | _ => cases h

theorem nested_union_iff : (union ds).Nested (n + 2) ↔ ∃ d ∈ ds, d.Nested (n + 1) := by
  constructor
  · intro h
    cases h with
    | member hd hn => exact ⟨_, hd, hn⟩
  · rintro ⟨d, hd, hn⟩
    exact .member hd hn

/-- A member of a union is in order once it is an array unless it was a
union of unions. -/
theorem distributed_arrayOfMember :
    (arrayOfMember d).Distributed ↔ d.Distributed ∧ ¬ d.Nested 2 := by
  cases d with
  | union es =>
    have hnested : ¬ (union es).Nested 2 ↔ ∀ e ∈ es, e.isUnion = false := by
      rw [nested_union_iff]
      simp [nested_one_iff]
    rw [arrayOfMember, distributed_union, distributed_union, hnested, List.forall_mem_map]
    simp only [distributed_array, and_comm, forall_and]
  | _ =>
    rw [arrayOfMember, distributed_array]
    · exact (and_iff_right rfl).trans (and_iff_left (not_nested rfl)).symm
    · simp

/-- **Two levels of unions are distributed over, and the third is not.** -/
theorem distributed_arrayOf : (arrayOf d).Distributed ↔ d.Distributed ∧ ¬ d.Nested 3 := by
  cases d with
  | union ds =>
    have hnested : ¬ (union ds).Nested 3 ↔ ∀ d ∈ ds, ¬ d.Nested 2 := by
      rw [nested_union_iff]
      simp
    rw [arrayOf, distributed_union, distributed_union, hnested, List.forall_mem_map]
    simp only [distributed_arrayOfMember, forall_and]
  | _ =>
    rw [arrayOf, distributed_array]
    · exact (and_iff_right rfl).trans (and_iff_left (not_nested rfl)).symm
    · simp

theorem Nested.of_arrayOfMember (h : (arrayOfMember d).Nested n) : d.Nested n := by
  cases d with
  | union es =>
    cases h with
    | union => exact .union es
    | member he hn =>
      obtain ⟨e, -, rfl⟩ := List.mem_map.1 he
      exact absurd hn (not_nested rfl)
  | _ => exact absurd h (not_nested rfl)

/-- An array has no more levels than what it is made of. -/
theorem Nested.of_arrayOf (h : (arrayOf d).Nested n) : d.Nested n := by
  cases d with
  | union ds =>
    cases h with
    | union => exact .union ds
    | member he hn =>
      obtain ⟨d, hd, rfl⟩ := List.mem_map.1 he
      exact .member hd hn.of_arrayOfMember
  | _ => exact absurd h (not_nested rfl)

/-- Of two levels it keeps both. -/
theorem Nested.arrayOf (h : d.Nested n) (hn : n ≤ 2) : d.arrayOf.Nested n := by
  cases h with
  | union ds => exact .union _
  | @member n d ds hd hnested =>
    refine .member (List.mem_map_of_mem hd) ?_
    cases hnested with
    | union es => exact .union _
    | member _ h => cases h <;> omega

theorem Nested.of_oneOf (h : (oneOf ds).Nested n) :
    n = 1 ∨ (∃ d ∈ ds, d.Nested n) ∨ ∃ d ∈ ds, ∃ k, n = k + 1 ∧ d.Nested k := by
  rw [oneOf] at h
  split at h
  · rename_i d hone
    exact .inr (.inl ⟨d, List.mem_eraseDups.1 (by simp [hone]), h⟩)
  · cases h with
    | union => exact .inl rfl
    | member hd hn => exact .inr (.inr ⟨_, List.mem_eraseDups.1 hd, _, rfl, hn⟩)

/-- Different doc types stay side by side. -/
theorem oneOf_of_nodup (htwo : 2 ≤ ds.length) (hds : ds.Nodup) : oneOf ds = union ds := by
  have hne : ds ≠ [] := List.ne_nil_of_length_pos (by omega)
  have hkept : ds.eraseDups = ds := Distinct.eraseDups_of_nodup hds
  rcases oneOf_cases hne with ⟨d, hone, -⟩ | ⟨-, heq⟩
  · rw [hkept] at hone
    simp [hone] at htwo
  · rw [heq, hkept]

end DocType

namespace Ty

/-- Unions inside one another with nothing but arrays and iterables between
them. -/
inductive Layered : Nat → Ty → Prop
  | union (ts : List Ty) : Layered 1 (union ts)
  | member {n : Nat} {t : Ty} {ts : List Ty} : t ∈ ts → Layered n t → Layered (n + 1) (.union ts)
  | array {n : Nat} {t : Ty} : Layered n t → Layered n (.array t)
  | iterable {n : Nat} {t : Ty} : Layered n t → Layered n (.iterable t)

/-- Fewer layers may be counted, but not none. -/
theorem Layered.of_le {n k : Nat} {t : Ty} (h : t.Layered n) (hk : 1 ≤ k) (hle : k ≤ n) :
    t.Layered k := by
  induction h generalizing k with
  | union ts =>
    obtain rfl : k = 1 := by omega
    exact .union ts
  | @member n t ts ht _ ih =>
    match k with
    | 0 => omega
    | 1 => exact .union ts
    | k + 2 => exact .member ht (ih (by omega) (by omega))
  | array _ ih => exact .array (ih hk hle)
  | iterable _ ih => exact .iterable (ih hk hle)

theorem layered_array {n : Nat} {t : Ty} : (array t).Layered n ↔ t.Layered n := by
  refine ⟨fun h => ?_, .array⟩
  cases h
  assumption

theorem layered_union {n : Nat} {ts : List Ty} :
    (union ts).Layered (n + 2) ↔ ∃ t ∈ ts, t.Layered (n + 1) := by
  constructor
  · intro h
    cases h with
    | member ht hn => exact ⟨_, ht, hn⟩
  · rintro ⟨t, ht, hn⟩
    exact .member ht hn

theorem not_layered_of_isLeaf {n : Nat} {t : Ty} (hleaf : t.isLeaf = true) : ¬ t.Layered n := by
  intro h
  cases h <;> cases hleaf

/-- No array or iterable in the type is made of something with three layers
of unions. -/
def ArraysShallow (t : Ty) : Prop :=
  t.Everywhere fun s => ∀ item, s.item? = some item → ¬ item.Layered 3

end Ty

namespace Renderer

variable {config : Config} {classes : Hierarchy} {t item : Ty} {ts : List Ty} {n : Nat}

/-- An array or iterable of something documented by three unions directly
inside one another. -/
def Crowds (m : Renderer) (t : Ty) : Prop :=
  ∃ item d, t.item? = some item ∧ m.docType item = .ok d ∧ d.Nested 3

/-- In every union of the type, different members are documented
differently. -/
def MembersApart (m : Renderer) (t : Ty) : Prop :=
  t.Everywhere fun s => ∀ ts, s = .union ts → ∀ a ∈ ts, ∀ b ∈ ts, m.docType a = m.docType b → a = b

section Doc

/-! By the default rules every type has a doc type, so that the doc types
can be spoken of as a function here. -/

variable {doc : Ty → DocType} (hdoc : ∀ t, (standard config classes).docType t = .ok (doc t))
include hdoc

theorem doc_array (t : Ty) : doc (.array t) = (doc t).arrayOf :=
  Except.ok.inj ((hdoc _).symm.trans (docType_array (hdoc t)))

theorem doc_iterable (t : Ty) : doc (.iterable t) = (doc t).arrayOf :=
  Except.ok.inj ((hdoc _).symm.trans (docType_iterable (hdoc t)))

theorem doc_union (ts : List Ty) : doc (.union ts) = .oneOf (ts.map doc) :=
  Except.ok.inj ((hdoc _).symm.trans (docType_union fun t _ => hdoc t))

theorem doc_intersection (ts : List Ty) : doc (.intersection ts) = .allOf (ts.map doc) :=
  Except.ok.inj ((hdoc _).symm.trans (docType_intersection fun t _ => hdoc t))

theorem exists_doc_of_isLeaf (hleaf : t.isLeaf = true) : ∃ s, doc t = .name s := by
  obtain ⟨s, hs⟩ := exists_docType_standard_of_isLeaf config classes hleaf
  exact ⟨s, Except.ok.inj ((hdoc t).symm.trans hs)⟩

theorem distributed_doc_of_isLeaf (hleaf : t.isLeaf = true) : (doc t).Distributed := by
  obtain ⟨s, hs⟩ := exists_doc_of_isLeaf hdoc hleaf
  rw [hs]
  exact DocType.distributed_name s

theorem not_nested_doc_of_isLeaf (hleaf : t.isLeaf = true) : ¬ (doc t).Nested n := by
  obtain ⟨s, hs⟩ := exists_doc_of_isLeaf hdoc hleaf
  rw [hs]
  exact DocType.not_nested rfl

theorem crowds_iff (hitem : t.item? = some item) :
    (standard config classes).Crowds t ↔ (doc item).Nested 3 := by
  constructor
  · rintro ⟨item', d, hitem', hd, hn⟩
    obtain rfl : item = item' := Option.some.inj (hitem.symm.trans hitem')
    obtain rfl : doc item = d := Except.ok.inj ((hdoc item).symm.trans hd)
    exact hn
  · intro hn
    exact ⟨item, doc item, hitem, hdoc item, hn⟩

omit hdoc in
theorem not_crowds (hitem : t.item? = none) : ¬ (standard config classes).Crowds t := by
  rintro ⟨item, -, hsome, -⟩
  rw [hitem] at hsome
  cases hsome

/-- **The arrays of a doc type are distributed exactly if no array in the
type is crowded.** -/
theorem distributed_doc_iff (t : Ty) :
    (doc t).Distributed ↔ t.Everywhere fun s => ¬ (standard config classes).Crowds s := by
  induction t using Ty.induction with
  | step t ih =>
    rw [Ty.everywhere_iff]
    cases t with
    | array item =>
      rw [doc_array hdoc, DocType.distributed_arrayOf, crowds_iff hdoc rfl, Ty.parts,
        List.forall_mem_singleton, ih item (by simp [Ty.parts])]
      exact and_comm
    | iterable item =>
      rw [doc_iterable hdoc, DocType.distributed_arrayOf, crowds_iff hdoc rfl, Ty.parts,
        List.forall_mem_singleton, ih item (by simp [Ty.parts])]
      exact and_comm
    | union ts =>
      rw [doc_union hdoc, DocType.distributed_oneOf, List.forall_mem_map,
        and_iff_right (not_crowds rfl)]
      exact forall₂_congr ih
    | intersection ts =>
      rw [doc_intersection hdoc, DocType.distributed_allOf, List.forall_mem_map,
        and_iff_right (not_crowds rfl)]
      exact forall₂_congr ih
    | _ =>
      exact iff_of_true (distributed_doc_of_isLeaf hdoc rfl) ⟨not_crowds rfl, by simp [Ty.parts]⟩

/-- The levels of a doc type come from layers of the type. -/
theorem layered_of_nested (hn : (doc t).Nested n) : t.Layered n := by
  induction t using Ty.induction generalizing n with
  | step t ih =>
    cases t with
    | array item =>
      rw [doc_array hdoc] at hn
      exact .array (ih item (by simp [Ty.parts]) hn.of_arrayOf)
    | iterable item =>
      rw [doc_iterable hdoc] at hn
      exact .iterable (ih item (by simp [Ty.parts]) hn.of_arrayOf)
    | union ts =>
      rw [doc_union hdoc] at hn
      rcases hn.of_oneOf with rfl | ⟨d, hd, hnested⟩ | ⟨d, hd, k, rfl, hnested⟩
      · exact .union ts
      · -- all members are documented alike, and the union's own layer is one too many
        obtain ⟨s, hs, rfl⟩ := List.mem_map.1 hd
        have hlayered : (Ty.union ts).Layered (n + 1) := .member hs (ih s hs hnested)
        exact hlayered.of_le hnested.pos (by omega)
      · obtain ⟨s, hs, rfl⟩ := List.mem_map.1 hd
        exact .member hs (ih s hs hnested)
    | intersection ts =>
      rw [doc_intersection hdoc] at hn
      exact absurd hn (DocType.not_nested rfl)
    | _ => exact absurd hn (not_nested_doc_of_isLeaf hdoc rfl)

theorem doc_union_of_membersApart (hproper : (Ty.union ts).UnionsProper)
    (hapart : (standard config classes).MembersApart (.union ts)) :
    doc (.union ts) = .union (ts.map doc) := by
  have hmembers := hproper.properUnion
  have hdifferent : ∀ a ∈ ts, ∀ b ∈ ts, doc a = doc b → a = b := fun a ha b hb hab =>
    hapart.here ts rfl a ha b hb (by rw [hdoc a, hdoc b, hab])
  have htwo : 2 ≤ (ts.map doc).length := by
    rw [List.length_map]
    exact hmembers.two_le
  rw [doc_union hdoc, DocType.oneOf_of_nodup htwo (hmembers.nodup.map_on hdifferent)]

theorem nested_arrayOf_of_not_crowds (hitem : t.item? = some item) (hn : n ≤ 3)
    (hfree : ¬ (standard config classes).Crowds t) (hnested : (doc item).Nested n) :
    (doc item).arrayOf.Nested n := by
  have hnot : n ≠ 3 := by
    rintro rfl
    exact hfree ((crowds_iff hdoc hitem).2 hnested)
  exact hnested.arrayOf (by omega)

/-- Layers are levels of the doc type, as long as different members are
documented differently and the arrays between the layers are distributed. -/
theorem nested_of_layered (hproper : t.UnionsProper)
    (hapart : (standard config classes).MembersApart t)
    (hfree : t.Everywhere fun s => ¬ (standard config classes).Crowds s) (hn : n ≤ 3)
    (hlayered : t.Layered n) : (doc t).Nested n := by
  induction hlayered with
  | union ts =>
    rw [doc_union_of_membersApart hdoc hproper hapart]
    exact .union _
  | @member n t ts ht _ ih =>
    have hpart : t ∈ (Ty.union ts).parts := ht
    have hmember := ih (hproper.part hpart) (hapart.part hpart) (hfree.part hpart) (by omega)
    rw [doc_union_of_membersApart hdoc hproper hapart]
    exact .member (List.mem_map_of_mem ht) hmember
  | @array n item _ ih =>
    have hpart : item ∈ (Ty.array item).parts := by simp [Ty.parts]
    have hitem := ih (hproper.part hpart) (hapart.part hpart) (hfree.part hpart) hn
    rw [doc_array hdoc]
    exact nested_arrayOf_of_not_crowds hdoc rfl hn hfree.here hitem
  | @iterable n item _ ih =>
    have hpart : item ∈ (Ty.iterable item).parts := by simp [Ty.parts]
    have hitem := ih (hproper.part hpart) (hapart.part hpart) (hfree.part hpart) hn
    rw [doc_iterable hdoc]
    exact nested_arrayOf_of_not_crowds hdoc rfl hn hfree.here hitem

/-- An array is crowded only by three layers. -/
theorem not_crowds_of_arraysShallow (hshallow : t.ArraysShallow) :
    t.Everywhere fun s => ¬ (standard config classes).Crowds s := by
  rintro s hs ⟨item, d, hitem, hd, hnested⟩
  obtain rfl : doc item = d := Except.ok.inj ((hdoc item).symm.trans hd)
  exact hshallow s hs item hitem (layered_of_nested hdoc hnested)

theorem arraysShallow_of_not_crowds (hproper : t.UnionsProper)
    (hapart : (standard config classes).MembersApart t)
    (hfree : t.Everywhere fun s => ¬ (standard config classes).Crowds s) : t.ArraysShallow := by
  intro s hs item hitem hlayered
  have hin : item.OccursIn t := .head (Ty.mem_parts_of_item? hitem) hs
  have hnested := nested_of_layered hdoc (hproper.within hin) (hapart.within hin)
    (hfree.within hin) (Nat.le_refl 3) hlayered
  exact hfree s hs ((crowds_iff hdoc hitem).2 hnested)

end Doc

/-- **When all arrays are distributed.** Every type has a doc type, and in
it no array stands directly around a union exactly if no array in the type
is made of something documented by three unions inside one another. Arrays
over fewer than three layers of unions are therefore in order; and as long
as different members of a union are documented differently, no others
are. -/
theorem distributed_docType (config : Config) (classes : Hierarchy) (t : Ty) :
    ∃ d, (standard config classes).docType t = .ok d ∧
      (d.Distributed ↔ t.Everywhere fun s => ¬ (standard config classes).Crowds s) ∧
      (t.ArraysShallow → d.Distributed) ∧
      (t.UnionsProper → (standard config classes).MembersApart t → d.Distributed →
        t.ArraysShallow) := by
  choose doc hdoc using exists_docType_standard config classes
  have hiff := distributed_doc_iff hdoc t
  refine ⟨doc t, hdoc t, hiff, fun hshallow => ?_, fun hproper hapart hdistributed => ?_⟩
  · exact hiff.2 (not_crowds_of_arraysShallow hdoc hshallow)
  · exact arraysShallow_of_not_crowds hdoc hproper hapart (hiff.1 hdistributed)

/-- In arrays of numbers, texts or flags no array is over three layers. -/
theorem arraysShallow_tablesOrFlags : tablesOrFlags.ArraysShallow := by
  have hscalar : ∀ s n, ¬ (Ty.scalar s).Layered n := fun s n => Ty.not_layered_of_isLeaf rfl
  have hrow : ¬ (Ty.union [.scalar .int, .scalar .string]).Layered 3 := by
    simp [Ty.layered_union, hscalar]
  have hmembers : ¬ (Ty.union [.array (.union [.scalar .int, .scalar .string]),
      .scalar .bool]).Layered 3 := by
    simp [Ty.layered_union, Ty.layered_array, hscalar]
  refine everywhere_tablesOrFlags ?_ ?_ ?_ ?_ ?_
  · intro s item hitem
    cases hitem
  · intro item hitem
    cases hitem
  · intro item hitem
    cases hitem
    exact hrow
  · intro item hitem
    cases hitem
  · intro item hitem
    cases hitem
    exact hmembers

/-- There all arrays are distributed. -/
theorem distributed_docType_tablesOrFlags :
    tablesOrFlags.Built ∧ tablesOrFlags.ArraysShallow ∧
    ∃ d, (standard {} .empty).docType tablesOrFlags = .ok d ∧ d.Distributed := by
  obtain ⟨d, hdoc, -, hshallow, -⟩ := distributed_docType {} .empty tablesOrFlags
  exact ⟨built_tablesOrFlags, arraysShallow_tablesOrFlags, d, hdoc,
    hshallow arraysShallow_tablesOrFlags⟩

/-- Arrays of these in their turn, or of rates. -/
def tablesFlagsOrRates : Ty := .array (.unionOf [tablesOrFlags, .scalar .float])

theorem built_tablesFlagsOrRates : tablesFlagsOrRates.Built := by
  refine .array (.unionOf fun t ht => ?_)
  simp only [List.mem_cons, List.not_mem_nil, or_false] at ht
  rcases ht with rfl | rfl
  · exact built_tablesOrFlags
  · exact .leaf rfl

/-- **Not all arrays are distributed**: the innermost union is the third,
and keeps an array around it. -/
theorem not_distributed_tablesFlagsOrRates :
    tablesFlagsOrRates.Built ∧
    ∃ d, (standard {} .empty).docType tablesFlagsOrRates = .ok d ∧
      d.text = "(int[][]|string[][])[]|bool[][]|float[]" ∧ ¬ d.Distributed := by
  refine ⟨built_tablesFlagsOrRates, _, rfl, rfl, ?_⟩
  change ¬ (DocType.union [.union [.array (.union [.array (.array (.name "int")),
    .array (.array (.name "string"))]), .array (.array (.name "bool"))],
    .array (.name "float")]).Distributed
  simp [DocType.distributed_union, DocType.distributed_array, DocType.isUnion]

end Renderer

end TypeScribe

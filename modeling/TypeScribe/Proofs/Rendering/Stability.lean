import TypeScribe.Proofs.Rendering.ReadBack
import TypeScribe.TypeHint.Equality
/-!
# Hints are stable under reading

A hint that is read back and rendered again comes out as it went in, but
for repeated members of a union, which reading drops. The erased type may
go another way through the renderer than the type it came from, so the
proof follows each of the four ways of a union and shows where the second
pass ends up.
-/

namespace TypeScribe

/-- The class's name has no meaning of its own in a hint. -/
def ClassRef.IsPlain (ref : ClassRef) : Prop :=
  Text.fold ref.identity ∉ ["callable", "self", "static", "mixed"]

/-- All class names in the type are plain. -/
def Ty.PlainNames (t : Ty) : Prop := t.Everywhere fun s => ∀ ref, s = .object ref → ref.IsPlain

namespace TypeHint

theorem distinct_of_isUnion {a : TypeHint} (ha : a.isUnion = false) : a.distinct = a := by
  cases a with
  | union as => cases ha
  | _ => rfl

theorem distinct_union {as : List TypeHint} (htwo : 2 ≤ as.eraseDups.length) :
    (union as).distinct = union as.eraseDups := by
  rw [distinct]
  match as.eraseDups, htwo with
  | a :: b :: rest, _ => rfl

end TypeHint

namespace Renderer

variable {c : Config} {h : Hierarchy} {slot : Slot}

/-! ## One type -/

/-- Folding forgets the root, so a name may be given without it. -/
theorem fold_unrooted (name : String) : Text.fold (Text.unrooted name) = Text.fold name := by
  rw [Text.fold, Text.unrooted_unrooted, Text.fold]

/-- The hint of a class with a plain name is that name from the root. -/
theorem classHint?_of_isPlain {ref : ClassRef} (href : ref.IsPlain) :
    classHint? ref = some (.rooted (Text.unrooted ref.identity)) := by
  simp only [ClassRef.IsPlain, List.mem_cons, List.not_mem_nil, or_false, not_or] at href
  obtain ⟨hcallable, hself, hstatic, hmixed⟩ := href
  rw [classHint?_eq, if_neg hcallable, if_neg hself, if_neg (by simp [hstatic, hmixed])]

/-- What a hint keeps of a class with a plain name is that name. -/
theorem erasedClass_of_isPlain {ref : ClassRef} (hself : ref.isSelf = false)
    (href : ref.IsPlain) :
    erasedClass ref = .object (.fullyQualified (Text.unrooted ref.identity)) := by
  simp only [ClassRef.IsPlain, List.mem_cons, List.not_mem_nil, or_false, not_or] at href
  obtain ⟨hcallable, hself', -, -⟩ := href
  rw [erasedClass, if_neg (by simp [hself, hself']), if_neg hcallable]

/-- Read back, a plain name has its own hint again. -/
theorem ownHint?_rooted {ref : ClassRef} (href : ref.IsPlain) :
    ownHint? c slot (.object (.fullyQualified (Text.unrooted ref.identity))) =
      some (.rooted (Text.unrooted ref.identity)) := by
  have hplain : (ClassRef.fullyQualified (Text.unrooted ref.identity)).IsPlain := by
    rw [ClassRef.IsPlain, ClassRef.identity, fold_unrooted]
    exact href
  rw [ownHint?_object rfl, classHint?_of_isPlain hplain, ClassRef.identity, Text.unrooted_unrooted]

theorem isUnion_erasedOne {t : Ty} (ht : t.isUnion = false) : (erasedOne t).isUnion = false := by
  cases t with
  | union ts => cases ht
  | object ref =>
    rw [erasedOne, erasedClass]
    split_ifs <;> rfl
  | _ => rfl

theorem erasedOne_ne_null {t : Ty} (ht : t ≠ .null) : erasedOne t ≠ .null := by
  cases t with
  | null => exact absurd rfl ht
  | object ref =>
    rw [erasedOne, erasedClass]
    split_ifs <;> simp
  | _ => simp [erasedOne]

/-- No hint makes a type array-like that was not, if `self` is not the
class that counts as `iterable`. -/
theorem isArrayLike_of_erasedOne (hmarker : c.iterableMarker ≠ "self") {t : Ty}
    (ht : (erasedOne t).isArrayLike c = true) : t.isArrayLike c = true := by
  cases t with
  | object ref =>
    rw [erasedOne, erasedClass] at ht
    split_ifs at ht with hself hcallable
    · have hmarks : Text.unrooted "self" = c.iterableMarker := by
        simpa [Ty.isArrayLike, ClassRef.identity] using ht
      exact absurd hmarks.symm hmarker
    · cases ht
    · simpa [Ty.isArrayLike, ClassRef.identity] using ht
  | closure => cases ht
  | array t => rfl
  | iterable t => rfl
  | _ => exact ht

/-- **The second pass over one type gives its hint again.** -/
theorem ownHint?_erasedOne {t : Ty} (hnames : t.PlainNames) {a : TypeHint}
    (ha : ownHint? c slot t = some a) : ownHint? c slot (erasedOne t) = some a := by
  cases t with
  | object ref =>
    have href := hnames.here ref rfl
    cases hself : ref.isSelf with
    | false =>
      rw [ownHint?_object hself, classHint?_of_isPlain href, Option.some.injEq] at ha
      rw [erasedOne, erasedClass_of_isPlain hself href, ownHint?_rooted href, ha]
    | true =>
      have hkept : erasedClass ref = .object (.selfRef "self") := by
        rw [erasedClass, if_pos (.inl hself)]
      cases ref with
      | selfRef s =>
        rw [erasedOne, hkept]
        exact ha
      | _ => cases hself
  | _ => exact ha

/-! ## Unions -/

/-- Two types of which one is `null` and neither a union are a proper
union. -/
theorem properUnion_null {t : Ty} (hnull : t ≠ .null) (hunion : t.isUnion = false) :
    Ty.ProperUnion [t, .null] where
  two_le := by simp
  nodup := by simp [hnull]
  flat s hs := by
    rcases List.mem_pair.1 hs with rfl | rfl
    · exact hunion
    · rfl

/-- **The second pass over a union of arrays** finds a union of arrays
again, or the one array. -/
theorem hint_erasedArrays (hiterable : c.supports .iterableType = true) (ts : List Ty) :
    (standard c h).hint slot (erasedArrays c ts) = .ok (some (arrayHint c ts)) := by
  unfold erasedArrays arrayHint
  dsimp only
  by_cases hnull : Ty.null ∈ ts
  · rw [if_pos hnull, if_pos hnull]
    cases hany : ts.any (Ty.meansIterable c) with
    | true =>
      rw [if_pos rfl, if_pos rfl, hint_union_iff (by simp [Ty.isUnion])]
      have harrays : UnionHint c h slot [.iterable .mixed, .null]
          (arrayHint c [.iterable .mixed, .null]) := .arrays rfl
      exact harrays
    | false =>
      rw [if_neg (by simp), if_neg (by simp), hint_union_iff (by simp [Ty.isUnion])]
      have harrays : UnionHint c h slot [.array .mixed, .null]
          (arrayHint c [.array .mixed, .null]) := .arrays rfl
      exact harrays
  · rw [if_neg hnull, if_neg hnull]
    cases hany : ts.any (Ty.meansIterable c) with
    | true =>
      rw [if_pos rfl, if_pos rfl, hint_of_isUnion rfl, ownHint?, if_pos hiterable]
    | false => rfl

/-- **The second pass over a type with `null`** finds the pair again. -/
theorem hint_nullable_erasedOne (hmarker : c.iterableMarker ≠ "self") {t : Ty}
    (hunion : t.isUnion = false) (hnull : t ≠ .null) (harray : t.isArrayLike c = false)
    (hnames : t.PlainNames) {a : TypeHint} (ha : ownHint? c slot t = some a) :
    (standard c h).hint slot (.nullable (erasedOne t)) = .ok (some (.nullable a)) := by
  have hproper := properUnion_null (erasedOne_ne_null hnull) (isUnion_erasedOne hunion)
  have hnot : (erasedOne t).isArrayLike c = false := by
    by_contra hlike
    rw [isArrayLike_of_erasedOne hmarker (by simpa using hlike)] at harray
    cases harray
  rw [Ty.nullable, hproper.unionOf_eq, hint_union_iff hproper.flat]
  refine .nullable ?_ ?_ (ownHint?_erasedOne hnames ha)
  · simp [hnot]
  · rw [Ty.besideNull?_eq_some_iff]
    exact ⟨erasedOne_ne_null hnull, .inr rfl⟩

/-- A hint stands side by side with others only if it is found again when
it is read by itself. -/
theorem ownHint?_meaning {ts : List Ty} {as : List TypeHint}
    (hmap : ts.map (ownHint? c slot) = as.map some) (hnames : ∀ t ∈ ts, t.PlainNames) :
    ∀ a ∈ as, ownHint? c slot a.meaning = some a := by
  intro a ha
  have hsome : some a ∈ ts.map (ownHint? c slot) := hmap ▸ List.mem_map_of_mem ha
  obtain ⟨t, ht, hta⟩ := List.mem_map.1 hsome
  rw [meaning_of_ownHint? hta]
  exact ownHint?_erasedOne (hnames t ht) hta

/-- Different hints mean different types, so what reading drops are the
hints that come again. -/
theorem eraseDups_map_erasedOne {ts : List Ty} {as : List TypeHint}
    (hmap : ts.map (ownHint? c slot) = as.map some) (hnames : ∀ t ∈ ts, t.PlainNames) :
    (ts.map erasedOne).eraseDups = as.eraseDups.map TypeHint.meaning := by
  have hfound := ownHint?_meaning hmap hnames
  rw [← map_meaning hmap]
  refine Distinct.eraseDups_map fun a ha b hb hab => ?_
  have hsame := hfound a ha
  rw [hab, hfound b hb, Option.some.injEq] at hsame
  exact hsame.symm

/-- A union that is none of arrays does not become one. -/
theorem all_isArrayLike_erased (hmarker : c.iterableMarker ≠ "self") {ts ss : List Ty}
    (hall : ts.all (Ty.isArrayLike c) = false) (hmem : ∀ t ∈ ts, erasedOne t ∈ ss) :
    ss.all (Ty.isArrayLike c) = false := by
  rw [List.all_eq_false] at hall ⊢
  obtain ⟨t, ht, hnot⟩ := hall
  exact ⟨erasedOne t, hmem t ht, fun hlike => hnot (isArrayLike_of_erasedOne hmarker hlike)⟩

/-- Nor does a union without `null` become a pair with `null`. -/
theorem besideNull?_erased {ts ss : List Ty} (hnull : .null ∉ ts)
    (hmem : ∀ s ∈ ss, s ∈ ts.map erasedOne) : Ty.besideNull? ss = none := by
  cases hpair : Ty.besideNull? ss with
  | none => rfl
  | some s =>
    obtain ⟨-, hshape⟩ := Ty.besideNull?_eq_some_iff.1 hpair
    have hin : Ty.null ∈ ss := by
      rcases hshape with heq | heq <;> rw [heq] <;> simp
    obtain ⟨t, ht, hterased⟩ := List.mem_map.1 (hmem _ hin)
    have hne : t ≠ .null := fun heq => hnull (heq ▸ ht)
    exact absurd hterased (erasedOne_ne_null hne)

/-- **The second pass over a union of named types** finds the same names,
each once. -/
theorem hint_unionOf_erased (hmarker : c.iterableMarker ≠ "self") {ts : List Ty}
    (hproper : Ty.ProperUnion ts) (hnames : ∀ t ∈ ts, t.PlainNames)
    (hall : ts.all (Ty.isArrayLike c) = false) (hnull : .null ∉ ts)
    (hunion : c.supports .unionTypes = true) {as : List TypeHint}
    (hmap : ts.map (ownHint? c slot) = as.map some) :
    (standard c h).hint slot (.unionOf (ts.map erasedOne)) =
      .ok (some (TypeHint.union as).distinct) := by
  have hfound : ∀ a ∈ as.eraseDups, ownHint? c slot a.meaning = some a :=
    fun a ha => ownHint?_meaning hmap hnames a (List.mem_eraseDups.1 ha)
  have hflat : ∀ s ∈ ts.map erasedOne, s.isUnion = false := by
    intro s hs
    obtain ⟨t, ht, rfl⟩ := List.mem_map.1 hs
    exact isUnion_erasedOne (hproper.flat t ht)
  have hdistinct := eraseDups_map_erasedOne hmap hnames
  have hmem : ∀ s, s ∈ as.eraseDups.map TypeHint.meaning ↔ s ∈ ts.map erasedOne := by
    intro s
    rw [← hdistinct, List.mem_eraseDups]
  have hkept : ∀ t ∈ ts, erasedOne t ∈ as.eraseDups.map TypeHint.meaning :=
    fun t ht => (hmem _).2 (List.mem_map_of_mem ht)
  have hcases := Ty.unionOf_cases (ts.map erasedOne)
  rw [Ty.flatMap_unionMembers hflat, hdistinct] at hcases
  rcases hcases with ⟨hnil, -⟩ | ⟨s, hone, heq⟩ | ⟨htwo, heq⟩
  · have hpos : 0 < ts.length := by
      have htwo := hproper.two_le
      omega
    obtain ⟨t, ht⟩ := List.exists_mem_of_length_pos hpos
    have hin := hkept t ht
    rw [hnil] at hin
    cases hin
  · obtain ⟨a, has, rfl⟩ := List.map_eq_singleton_iff.1 hone
    have hdrop : (TypeHint.union as).distinct = a := by
      rw [TypeHint.distinct, has]
    have hsingle : a.meaning ∈ ts.map erasedOne := (hmem _).1 (by simp [has])
    rw [heq, hint_of_isUnion (hflat _ hsingle), hfound a (by simp [has]), hdrop]
  · rw [heq, TypeHint.distinct_union (by simpa using htwo),
      hint_union_iff fun s hs => hflat s ((hmem s).1 hs)]
    refine .native (all_isArrayLike_erased hmarker hall hkept)
      (besideNull?_erased hnull fun s hs => (hmem s).1 hs) hunion ?_
    rw [List.map_map]
    exact List.map_congr_left hfound

/-! ## All types -/

/-- A type with `null` that is not hinted as an array is not `null` and not
array-like itself. -/
theorem isArrayLike_of_besideNull? {ts : List Ty} {t : Ty}
    (hall : ts.all (Ty.isArrayLike c) = false) (hpair : Ty.besideNull? ts = some t) :
    t ∈ ts ∧ t ≠ .null ∧ t.isArrayLike c = false := by
  obtain ⟨hnull, heq⟩ := Ty.besideNull?_eq_some_iff.1 hpair
  rcases heq with rfl | rfl
  · exact ⟨by simp, hnull, by simpa [Ty.isArrayLike] using hall⟩
  · exact ⟨by simp, hnull, by simpa [Ty.isArrayLike] using hall⟩

/-- **The second pass over a union**, whichever of the four ways the first
one took. -/
theorem hint_meaning_of_unionHint (hiterable : c.supports .iterableType = true)
    (hmarker : c.iterableMarker ≠ "self") {ts : List Ty} (hproper : Ty.ProperUnion ts)
    (hnames : ∀ t ∈ ts, t.PlainNames) {a : TypeHint} (ha : UnionHint c h slot ts a) :
    (standard c h).hint slot a.meaning = .ok (some a.distinct) := by
  cases ha with
  | arrays hall =>
    rw [meaning_arrayHint, hint_erasedArrays hiterable,
      TypeHint.distinct_of_isUnion (isUnion_arrayHint c ts)]
  | nullable hall hpair hone =>
    obtain ⟨hmem, hnull, hnot⟩ := isArrayLike_of_besideNull? hall hpair
    rw [TypeHint.meaning, meaning_of_ownHint? hone,
      hint_nullable_erasedOne hmarker (hproper.flat _ hmem) hnull hnot (hnames _ hmem) hone]
    rfl
  | native hall hpair hunion hmap =>
    rw [TypeHint.meaning, TypeHint.meanings_eq_map, map_meaning hmap,
      hint_unionOf_erased hmarker hproper hnames hall (null_not_mem_of_map hmap) hunion hmap]
  | ancestor hall hpair hmissing hancestor =>
    obtain ⟨ref, hfind, rfl⟩ := exists_of_commonAncestor? hproper.nodup hancestor
    have href : ref.IsPlain := (hnames _ (List.mem_of_find?_eq_some hfind)).here ref rfl
    rw [TypeHint.meaning, Text.unrooted_unrooted, hint_of_isUnion rfl, ownHint?_rooted href]
    rfl

/-- **A second pass gives the hint again**, without repeated members. -/
theorem hint_meaning (hiterable : c.supports .iterableType = true)
    (hmarker : c.iterableMarker ≠ "self") {t : Ty} (ht : t.UnionsProper) (hnames : t.PlainNames)
    {a : TypeHint} (ha : (standard c h).hint slot t = .ok (some a)) :
    (standard c h).hint slot a.meaning = .ok (some a.distinct) := by
  cases hunion : t.isUnion with
  | false =>
    rw [hint_of_isUnion hunion, Except.ok.injEq] at ha
    have hdistinct : a.distinct = a := by
      have hleaf := isLeaf_of_ownHint? ha
      cases a with
      | union as => cases hleaf
      | _ => rfl
    rw [meaning_of_ownHint? ha, hint_of_isUnion (isUnion_erasedOne hunion),
      ownHint?_erasedOne hnames ha, hdistinct]
  | true =>
    cases t with
    | union ts =>
      have hproper := ht.properUnion
      exact hint_meaning_of_unionHint hiterable hmarker hproper (fun s hs => hnames.part hs)
        ((hint_union_iff hproper.flat).1 ha)
    | _ => cases hunion

/-- A union is hinted as one only by the hints of all its members. -/
theorem map_of_unionHint {ts : List Ty} {as : List TypeHint} (hts : ts.Nodup)
    (ha : UnionHint c h slot ts (.union as)) : ts.map (ownHint? c slot) = as.map some := by
  generalize hunion : TypeHint.union as = a at ha
  cases ha with
  | arrays hall =>
    have hnot := isUnion_arrayHint c ts
    rw [← hunion] at hnot
    cases hnot
  | nullable hall hpair hone => cases hunion
  | native hall hpair hversion hmap =>
    cases hunion
    exact hmap
  | ancestor hall hpair hmissing hancestor =>
    obtain ⟨ref, -, rfl⟩ := exists_of_commonAncestor? hts hancestor
    cases hunion

theorem length_of_unionHint {ts : List Ty} {as : List TypeHint} (hts : ts.Nodup)
    (ha : UnionHint c h slot ts (.union as)) : as.length = ts.length := by
  simpa using (congrArg List.length (map_of_unionHint hts ha)).symm

/-- A hint that repeats no member is left alone. -/
theorem distinct_of_nodup {t : Ty} (ht : t.UnionsProper) {a : TypeHint}
    (ha : (standard c h).hint slot t = .ok (some a)) (hnodup : ∀ as, a = .union as → as.Nodup) :
    a.distinct = a := by
  cases a with
  | union as =>
    cases hunion : t.isUnion with
    | false =>
      rw [hint_of_isUnion hunion, Except.ok.injEq] at ha
      cases isLeaf_of_ownHint? ha
    | true =>
      cases t with
      | union ts =>
        have hproper := ht.properUnion
        have hlength := length_of_unionHint hproper.nodup ((hint_union_iff hproper.flat).1 ha)
        have htwo := hproper.two_le
        have heq := Distinct.eraseDups_of_nodup (hnodup as rfl)
        rw [TypeHint.distinct_union (by rw [heq]; omega), heq]
      | _ => cases hunion
  | _ => rfl

/-- **Hints are stable under reading.** Of a type built by the normalising
constructors with plain class names, the type read back from the hint has
the same hint, but for members that came twice. -/
theorem hint_of_statedTy? (hiterable : c.supports .iterableType = true)
    (hmarker : c.iterableMarker ≠ "self") {t : Ty} (ht : t.Built) (hnames : t.PlainNames)
    {a : TypeHint} (ha : (standard c h).hint slot t = .ok (some a)) {back : Ty}
    (hback : a.tree.statedTy? = some back) :
    (standard c h).hint slot back = .ok (some a.distinct) ∧
      ((∀ as, a = .union as → as.Nodup) → (standard c h).hint slot back = .ok (some a)) := by
  rw [TypeHint.statedTy?_tree, Option.some.injEq] at hback
  subst hback
  have hproper := ht.normal.1
  have hagain := hint_meaning hiterable hmarker hproper hnames ha
  refine ⟨hagain, fun hnodup => ?_⟩
  rw [hagain, distinct_of_nodup hproper ha hnodup]

/-- The second pass over a union with two members that are hinted alike
drops one of them. -/
theorem hint_of_statedTy?_three :
    (Config.supports {} .iterableType = true ∧ ({} : Config).iterableMarker ≠ "self") ∧
    (Ty.union [.closure, .callable, .object (.named "\\App\\User")]).Built ∧
    (Ty.union [.closure, .callable, .object (.named "\\App\\User")]).PlainNames ∧
    (standard {} .empty).hint .param
      (.union [.closure, .callable, .object (.named "\\App\\User")]) =
        .ok (some (.union [.name "callable", .name "callable", .rooted "App\\User"])) ∧
    (TypeHint.union [.name "callable", .name "callable", .rooted "App\\User"]).tree.statedTy? =
      some (.union [.callable, .object (.fullyQualified "App\\User")]) ∧
    (standard {} .empty).hint .param (.union [.callable, .object (.fullyQualified "App\\User")]) =
      .ok (some (.union [.name "callable", .rooted "App\\User"])) := by
  have hversion : Config.supports {} .iterableType = true := by decide
  have hmarker : ({} : Config).iterableMarker ≠ "self" := by decide
  have hbuilt : (Ty.unionOf [.closure, .callable, .object (.named "\\App\\User")]).Built := by
    refine .unionOf fun t ht => ?_
    simp only [List.mem_cons, List.not_mem_nil, or_false] at ht
    rcases ht with rfl | rfl | rfl
    all_goals exact .leaf rfl
  have hplain : (ClassRef.named "\\App\\User").IsPlain := by
    unfold ClassRef.IsPlain
    decide
  have hnames : (Ty.union [.closure, .callable, .object (.named "\\App\\User")]).PlainNames := by
    refine Ty.everywhere_iff.2 ⟨by simp, fun t ht => ?_⟩
    simp only [Ty.parts, List.mem_cons, List.not_mem_nil, or_false] at ht
    rcases ht with rfl | rfl | rfl
    · exact Ty.everywhere_of_parts_eq_nil rfl (by simp)
    · exact Ty.everywhere_of_parts_eq_nil rfl (by simp)
    · exact Ty.everywhere_of_parts_eq_nil rfl (by simpa using hplain)
  have hhint : (standard {} .empty).hint .param
      (.union [.closure, .callable, .object (.named "\\App\\User")]) =
        .ok (some (.union [.name "callable", .name "callable", .rooted "App\\User"])) := rfl
  have hback : (TypeHint.union [.name "callable", .name "callable",
      .rooted "App\\User"]).tree.statedTy? =
        some (.union [.callable, .object (.fullyQualified "App\\User")]) := rfl
  have hagain := hint_of_statedTy? hversion hmarker hbuilt hnames hhint hback
  exact ⟨⟨hversion, hmarker⟩, hbuilt, hnames, hhint, hback, hagain.1⟩

end Renderer

end TypeScribe

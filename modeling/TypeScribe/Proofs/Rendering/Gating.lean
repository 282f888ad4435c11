import TypeScribe.Proofs.Rendering.Origin
/-!
# Forms that depend on the version

`int`, `void`, `object` and `A|B` stand in a hint, at whatever depth, only
if the version and the slot allow them; that is read off the table of
origins, line by line (`gated_of_hint`).

Unions of arrays and unions with `null` do not ask the version. Below the
version of `?T`, a hint contains a question mark exactly if the type is a
union with `null`; and below the version of `iterable`, which only the
bare type asks for, it contains that name exactly if a union of arrays
that means `iterable` is left when `null` is taken away
(`ungated_forms`).
-/

namespace TypeScribe

/-- Unions came last: a version that has them has every other form. -/
theorem Config.supports_of_unionTypes {c : Config} (hunion : c.supports .unionTypes = true)
    (f : Feature) : c.supports f = true := by
  have hearlier : f.since ≤ Feature.unionTypes.since := by
    cases f <;> decide
  exact Version.has_iff.2 (Version.le_trans hearlier (Version.has_iff.1 hunion))

namespace Renderer

variable {c : Config} {h : Hierarchy} {slot : Slot}

/-! ## What the version and the slot decide -/

/-- Whether the version and the slot allow a name to stand in a hint. -/
def allowsName (c : Config) (slot : Slot) : String → Bool
  | "int" | "float" | "string" | "bool" => c.supports .scalarTypes
  | "void" => c.supports .voidType && slot ≠ .param && slot ≠ .property
  | "object" => c.supports .objectType
  | _ => true

/-- **No type contributes a name that is not allowed.** -/
theorem Origin.allowsName {t : Ty} {s : String} (ho : Origin c slot t (.name s)) :
    allowsName c slot s = true := by
  cases ho with
  | scalar k hversion => cases k <;> exact hversion
  | anyObject hversion => exact hversion
  | void hversion hparam hproperty => simp [Renderer.allowsName, hversion, hparam, hproperty]
  | _ => rfl

theorem Origin.supports_unionTypes {t : Ty} {as : List TypeHint}
    (ho : Origin c slot t (.union as)) : c.supports .unionTypes = true := by
  cases ho with
  | union hversion => exact hversion

/-- Of the types that may be called, properties take only the class of
that name. -/
theorem Origin.callable_property {t : Ty} (ho : Origin c .property t (.name "callable")) :
    ∃ ref, t = .object ref ∧ Text.fold ref.identity = "callable" := by
  generalize hname : TypeHint.name "callable" = b at ho
  cases ho with
  | callableClass ref href => exact ⟨ref, rfl, href⟩
  | closure hslot => exact absurd rfl hslot
  | callable hslot => exact absurd rfl hslot
  | scalar k => cases k <;> simp [Scalar.name] at hname
  | _ => simp at hname

/-- **Every place of a hint is gated**: the names of scalars, `void` and
`object` and the form of a union take their version, `void` also a slot
for results, and in a property `callable` is only the class of that name
among the choices of the type. -/
theorem gated_of_hint {t : Ty} {a : TypeHint}
    (ha : (standard c h).hint slot t = .ok (some a)) :
    (∀ s ∈ ["int", "float", "string", "bool"],
      (TypeHint.name s).OccursIn a → c.supports .scalarTypes = true) ∧
    ((TypeHint.name "void").OccursIn a →
      c.supports .voidType = true ∧ (slot = .result ∨ slot = .any)) ∧
    ((TypeHint.name "object").OccursIn a → c.supports .objectType = true) ∧
    (∀ as, (TypeHint.union as).OccursIn a → c.supports .unionTypes = true) ∧
    (slot = .property → (TypeHint.name "callable").OccursIn a →
      ∃ ref, (Ty.object ref).ChoiceIn t ∧ Text.fold ref.identity = "callable") := by
  have hallowed : ∀ s, (TypeHint.name s).OccursIn a → allowsName c slot s = true := by
    intro s hs
    obtain ⟨r, -, horigin⟩ := exists_origin ha hs
    exact horigin.allowsName
  refine ⟨fun s hs hin => ?_, fun hin => ?_, hallowed "object", fun as hin => ?_,
    fun hslot hin => ?_⟩
  · have hgate := hallowed s hin
    simp only [List.mem_cons, List.not_mem_nil, or_false] at hs
    rcases hs with rfl | rfl | rfl | rfl <;> exact hgate
  · have hgate := hallowed "void" hin
    simp only [allowsName, Bool.and_eq_true, decide_eq_true_eq] at hgate
    obtain ⟨⟨hversion, hparam⟩, hproperty⟩ := hgate
    refine ⟨hversion, ?_⟩
    cases slot <;> simp_all
  · obtain ⟨r, -, horigin⟩ := exists_origin ha hin
    exact horigin.supports_unionTypes
  · subst hslot
    obtain ⟨r, hr, horigin⟩ := exists_origin ha hin
    obtain ⟨ref, rfl, href⟩ := horigin.callable_property
    exact ⟨ref, hr, href⟩

/-- A union inside a union, for a property that may be of a class called
`Callable`. -/
theorem gated_of_hint_property :
    (standard {} .empty).hint .property
      (.union [.union [.scalar .int, .object (.named "\\Callable")], .anyObject]) =
        .ok (some (.union [.union [.name "int", .name "callable"], .name "object"])) ∧
    Config.supports {} .scalarTypes = true ∧ Config.supports {} .objectType = true ∧
    Config.supports {} .unionTypes = true ∧
    ∃ ref, (Ty.object ref).ChoiceIn
        (.union [.union [.scalar .int, .object (.named "\\Callable")], .anyObject]) ∧
      Text.fold ref.identity = "callable" := by
  have hhint : (standard {} .empty).hint .property
      (.union [.union [.scalar .int, .object (.named "\\Callable")], .anyObject]) =
        .ok (some (.union [.union [.name "int", .name "callable"], .name "object"])) := rfl
  obtain ⟨hscalar, -, hobject, hunion, hcallable⟩ := gated_of_hint hhint
  exact ⟨hhint, hscalar "int" (by simp) (by simp [TypeHint.occursIn_union]),
    hobject (by simp [TypeHint.occursIn_union]), hunion _ (.refl _),
    hcallable rfl (by simp [TypeHint.occursIn_union])⟩

/-! ## What they do not decide -/

/-- The name `iterable` is contributed by the bare type, which asks the
version, and by unions. -/
theorem Origin.iterable_cases {t : Ty} (ho : Origin c slot t (.name "iterable")) :
    c.supports .iterableType = true ∨ t.isUnion = true := by
  generalize hname : TypeHint.name "iterable" = b at ho
  cases ho with
  | iterable t hversion => exact .inl hversion
  | iterables hall hany => exact .inr rfl
  | scalar k => cases k <;> simp [Scalar.name] at hname
  | _ => simp at hname

theorem exists_nullable_arrayHint_iff (ts : List Ty) :
    (∃ b, (TypeHint.nullable b).OccursIn (arrayHint c ts)) ↔ .null ∈ ts := by
  by_cases hnull : Ty.null ∈ ts
  · simp [arrayHint, hnull, TypeHint.occursIn_nullable]
  · simp [arrayHint, hnull]

theorem iterable_occursIn_arrayHint_iff (ts : List Ty) :
    (TypeHint.name "iterable").OccursIn (arrayHint c ts) ↔ ts.any (Ty.meansIterable c) = true := by
  by_cases hnull : Ty.null ∈ ts
  · simp [arrayHint, hnull, TypeHint.occursIn_nullable]
  · simp [arrayHint, hnull]

/-- Where the version has no unions, a question mark says that the type is
a union with `null`, and nothing else. -/
theorem exists_nullable_iff (hunions : c.supports .unionTypes = false) {t : Ty} {a : TypeHint}
    (ha : (standard c h).hint slot t = .ok (some a)) :
    (∃ b, (TypeHint.nullable b).OccursIn a) ↔ ∃ ts, t = .union ts ∧ .null ∈ ts := by
  rcases t.isUnion_or_eq_union with hunion | ⟨ts, rfl⟩
  · rw [hint_of_isUnion hunion, Except.ok.injEq] at ha
    have hleaf := isLeaf_of_ownHint? ha
    refine iff_of_false ?_ ?_
    · rintro ⟨b, hb⟩
      rw [← (TypeHint.occursIn_of_isLeaf hleaf).1 hb] at hleaf
      cases hleaf
    · rintro ⟨ts, rfl, -⟩
      cases hunion
  · have hnull : (∃ b, (TypeHint.nullable b).OccursIn a) ↔ .null ∈ ts := by
      cases unionStep_of_hint ha with
      | arrays _ heq => rw [heq, exists_nullable_arrayHint_iff]
      | marked _ hpair _ _ =>
        exact iff_of_true ⟨_, .refl _⟩ (Ty.null_mem_of_besideNull? hpair)
      | passed _ hpair _ hnullable =>
        refine iff_of_true ?_ (Ty.null_mem_of_besideNull? hpair)
        cases a with
        | nullable b => exact ⟨b, .refl _⟩
        | _ => cases hnullable _ rfl
      | native _ _ hnative _ =>
        rw [hunions] at hnative
        cases hnative
      | ancestor _ _ _ hancestor =>
        obtain ⟨ref, -, rfl⟩ := mem_of_commonAncestor? hancestor
        refine iff_of_false (by simp) fun hmem => ?_
        obtain ⟨other, hother⟩ := exists_object_of_commonAncestor? hancestor hmem
        cases hother
    simp [hnull]

/-- When `null` is taken away from beside a type, as often as it stands
there, a union of arrays is left that means `iterable`. -/
inductive LeavesIterables (c : Config) : Ty → Prop
  | here {ts : List Ty} : ts.all (Ty.isArrayLike c) = true →
      ts.any (Ty.meansIterable c) = true → LeavesIterables c (.union ts)
  | beside {ts : List Ty} {t : Ty} : Ty.besideNull? ts = some t → LeavesIterables c t →
      LeavesIterables c (.union ts)

theorem leavesIterables_union_iff {ts : List Ty} : LeavesIterables c (.union ts) ↔
    (ts.all (Ty.isArrayLike c) = true ∧ ts.any (Ty.meansIterable c) = true) ∨
      ∃ t, Ty.besideNull? ts = some t ∧ LeavesIterables c t := by
  constructor
  · rintro (⟨hall, hany⟩ | ⟨hpair, hleaves⟩)
    · exact .inl ⟨hall, hany⟩
    · exact .inr ⟨_, hpair, hleaves⟩
  · rintro (⟨hall, hany⟩ | ⟨t, hpair, hleaves⟩)
    · exact .here hall hany
    · exact .beside hpair hleaves

theorem LeavesIterables.isUnion {t : Ty} (ht : LeavesIterables c t) : t.isUnion = true := by
  cases ht <;> rfl

/-- A union is no array, so it does not stand in a union of arrays. -/
theorem isUnion_of_isArrayLike {t : Ty} (ht : t.isArrayLike c = true) : t.isUnion = false := by
  cases t with
  | union ts => cases ht
  | _ => rfl

/-- Where the version has neither unions nor `iterable`, the name says that
a union of arrays is left of the type. -/
theorem iterable_occursIn_iff (hunions : c.supports .unionTypes = false)
    (hversion : c.supports .iterableType = false) {t : Ty} {a : TypeHint}
    (ha : (standard c h).hint slot t = .ok (some a)) :
    (TypeHint.name "iterable").OccursIn a ↔ LeavesIterables c t := by
  induction t using Ty.induction generalizing a with
  | step t ih =>
    rcases t.isUnion_or_eq_union with hunion | ⟨ts, rfl⟩
    · rw [hint_of_isUnion hunion, Except.ok.injEq] at ha
      refine iff_of_false (fun hin => ?_) fun hleaves => by simp [hleaves.isUnion] at hunion
      rw [← (TypeHint.occursIn_of_isLeaf (isLeaf_of_ownHint? ha)).1 hin] at ha
      have hnot := (origin_of_ownHint? ha).iterable_cases
      simp [hversion, hunion] at hnot
    · rw [leavesIterables_union_iff]
      cases unionStep_of_hint ha with
      | arrays hall heq =>
        rw [heq, iterable_occursIn_arrayHint_iff]
        refine ⟨fun hany => .inl ⟨hall, hany⟩, ?_⟩
        -- what stands beside `null` in a union of arrays is no union itself
        rintro (⟨-, hany⟩ | ⟨t, hpair, hleaves⟩)
        · exact hany
        · have hunion := hleaves.isUnion
          have ht := List.all_eq_true.1 hall t (Ty.mem_of_besideNull? hpair)
          simp [isUnion_of_isArrayLike ht] at hunion
      | marked hall hpair hinner _ =>
        rw [TypeHint.occursIn_nullable, ih _ (Ty.mem_of_besideNull? hpair) hinner]
        simp [hall, hpair]
      | passed hall hpair hinner _ =>
        rw [ih _ (Ty.mem_of_besideNull? hpair) hinner]
        simp [hall, hpair]
      | native _ _ hnative _ =>
        rw [hunions] at hnative
        cases hnative
      | ancestor hall hpair _ hancestor =>
        obtain ⟨ref, -, rfl⟩ := mem_of_commonAncestor? hancestor
        simp [hall, hpair]

/-- **Unions of arrays and unions with `null` do not ask the version.**
Below the version of `?T` a hint has a question mark exactly if the type
is a union with `null`. Below the version of `iterable` it has that name
exactly if a union of arrays that means `iterable` is left of the type. -/
theorem ungated_forms {t : Ty} {a : TypeHint}
    (ha : (standard c h).hint slot t = .ok (some a)) :
    (c.supports .nullableType = false →
      ((∃ b, (TypeHint.nullable b).OccursIn a) ↔ ∃ ts, t = .union ts ∧ .null ∈ ts)) ∧
    (c.supports .iterableType = false →
      ((TypeHint.name "iterable").OccursIn a ↔ LeavesIterables c t)) := by
  have hunions : ∀ f, c.supports f = false → c.supports .unionTypes = false := by
    intro f hf
    by_contra hunion
    rw [Config.supports_of_unionTypes (by simpa using hunion) f] at hf
    cases hf
  exact ⟨fun hversion => exists_nullable_iff (hunions _ hversion) ha,
    fun hversion => iterable_occursIn_iff (hunions _ hversion) hversion ha⟩

/-- The first version of scalars has neither form, and a nested union comes
out with both. -/
theorem ungated_forms_nested :
    (standard { version := Feature.scalarTypes.since } .empty).hint .param
      (.union [.null, .union [.array .mixed, .object (.named "Traversable")]]) =
        .ok (some (.nullable (.name "iterable"))) ∧
    (∃ ts, Ty.union [.null, .union [.array .mixed, .object (.named "Traversable")]] = .union ts ∧
      .null ∈ ts) ∧
    LeavesIterables { version := Feature.scalarTypes.since }
      (.union [.null, .union [.array .mixed, .object (.named "Traversable")]]) := by
  have hhint : (standard { version := Feature.scalarTypes.since } .empty).hint .param
      (.union [.null, .union [.array .mixed, .object (.named "Traversable")]]) =
        .ok (some (.nullable (.name "iterable"))) := rfl
  obtain ⟨hnullable, hiterable⟩ := ungated_forms hhint
  exact ⟨hhint, (hnullable (by decide)).1 ⟨_, .refl _⟩,
    (hiterable (by decide)).1 (by simp [TypeHint.occursIn_nullable])⟩

/-- **Neither form is gated**: one hint has both, in a version that has
neither. -/
theorem hint_eq_nullable_iterable :
    (standard { version := Feature.scalarTypes.since } .empty).hint .param
      (.union [.array .mixed, .iterable .mixed, .null]) =
        .ok (some (.nullable (.name "iterable"))) ∧
    (∃ b, (TypeHint.nullable b).OccursIn (.nullable (.name "iterable"))) ∧
    Config.supports { version := Feature.scalarTypes.since } .nullableType = false ∧
    (TypeHint.name "iterable").OccursIn (.nullable (.name "iterable")) ∧
    Config.supports { version := Feature.scalarTypes.since } .iterableType = false :=
  ⟨rfl, ⟨_, .refl _⟩, by decide, by simp [TypeHint.occursIn_nullable], by decide⟩

end Renderer

end TypeScribe

import TypeScribe.Proofs.Rendering.NestedUnions
import TypeScribe.Proofs.TypeHint.Occurrence
/-!
# Where the parts of a hint come from

Everything that stands in a hint comes from one type among the choices of
the type that was rendered. `Origin` is the table of what a single type
can contribute, with what it takes of the version, the slot and the type,
and `exists_origin` says that there is nothing else. What holds of all
lines of the table holds of every place of every hint, so statements about
whole hints need no induction of their own.
-/

namespace TypeScribe

namespace TypeHint

/-- In a single name stands nothing but the name. -/
theorem occursIn_of_isLeaf {a b : TypeHint} (ha : a.isLeaf = true) : b.OccursIn a ↔ b = a := by
  cases a with
  | name s => exact occursIn_name
  | rooted s => exact occursIn_rooted
  | _ => cases ha

end TypeHint

namespace Renderer

variable {c : Config} {h : Hierarchy} {slot : Slot}

/-- What a type contributes to a hint, and what that takes. -/
inductive Origin (c : Config) (slot : Slot) : Ty → TypeHint → Prop
  | scalar (s : Scalar) : c.supports .scalarTypes = true →
      Origin c slot (.scalar s) (.name s.name)
  | array (t : Ty) : Origin c slot (.array t) (.name "array")
  | iterable (t : Ty) : c.supports .iterableType = true →
      Origin c slot (.iterable t) (.name "iterable")
  /-- The enclosing class, as such or by its name. -/
  | enclosing (ref : ClassRef) : Origin c slot (.object ref) (.name "self")
  | cls (ref : ClassRef) : Origin c slot (.object ref) (.rooted (Text.unrooted ref.identity))
  /-- A class by the name of the pseudo-type, which no slot refuses. -/
  | callableClass (ref : ClassRef) : Text.fold ref.identity = "callable" →
      Origin c slot (.object ref) (.name "callable")
  | closure : slot ≠ .property → Origin c slot .closure (.name "callable")
  | callable : slot ≠ .property → Origin c slot .callable (.name "callable")
  | anyObject : c.supports .objectType = true → Origin c slot .anyObject (.name "object")
  | void : c.supports .voidType = true → slot ≠ .param → slot ≠ .property →
      Origin c slot .void (.name "void")
  /-- A union of arrays. -/
  | arrays {ts : List Ty} : ts.all (Ty.isArrayLike c) = true →
      Origin c slot (.union ts) (.name "array")
  /-- A union of arrays of which one means `iterable`, which asks no
  version. -/
  | iterables {ts : List Ty} : ts.all (Ty.isArrayLike c) = true →
      ts.any (Ty.meansIterable c) = true → Origin c slot (.union ts) (.name "iterable")
  /-- A union with `null`, which asks no version either. -/
  | nullable {ts : List Ty} {a : TypeHint} : .null ∈ ts → a.isLeaf = true →
      Origin c slot (.union ts) (.nullable a)
  | union {ts : List Ty} {as : List TypeHint} : c.supports .unionTypes = true →
      Origin c slot (.union ts) (.union as)
  /-- A class that stands for a whole union. -/
  | ancestor {ts : List Ty} {ref : ClassRef} : .object ref ∈ ts →
      Origin c slot (.union ts) (.rooted (Text.unrooted ref.identity))

/-! ## The table is complete -/

theorem origin_of_classHint? {ref : ClassRef} {a : TypeHint} (ha : classHint? ref = some a) :
    Origin c slot (.object ref) a := by
  rw [classHint?_eq] at ha
  split_ifs at ha with hcallable
  · cases ha
    exact .callableClass ref hcallable
  · cases ha
    exact .enclosing ref
  · cases ha
    exact .cls ref

/-- A type that is no union contributes its hint. -/
theorem origin_of_ownHint? {t : Ty} {a : TypeHint} (ha : ownHint? c slot t = some a) :
    Origin c slot t a := by
  cases t with
  | object ref =>
    cases href : ref.isSelf with
    | false =>
      rw [ownHint?_object href] at ha
      exact origin_of_classHint? ha
    | true =>
      cases ref with
      | selfRef s =>
        cases ha
        exact .enclosing (.selfRef s)
      | _ => cases href
  | array t =>
    cases ha
    exact .array t
  | scalar s =>
    obtain ⟨hversion, ⟨⟩⟩ := Option.ite_none_right_eq_some.1 ha
    exact .scalar s hversion
  | iterable t =>
    obtain ⟨hversion, ⟨⟩⟩ := Option.ite_none_right_eq_some.1 ha
    exact .iterable t hversion
  | anyObject =>
    obtain ⟨hversion, ⟨⟩⟩ := Option.ite_none_right_eq_some.1 ha
    exact .anyObject hversion
  | closure =>
    obtain ⟨hslot, ⟨⟩⟩ := Option.ite_none_left_eq_some.1 ha
    exact .closure hslot
  | callable =>
    obtain ⟨hslot, ⟨⟩⟩ := Option.ite_none_left_eq_some.1 ha
    exact .callable hslot
  | void =>
    obtain ⟨hallowed, ⟨⟩⟩ := Option.ite_none_right_eq_some.1 ha
    simp only [Bool.and_eq_true, decide_eq_true_eq] at hallowed
    exact .void hallowed.1.1 hallowed.1.2 hallowed.2
  | _ => cases ha

/-- A union of arrays contributes its name and the question mark. -/
theorem origin_of_arrayHint {ts : List Ty} (hall : ts.all (Ty.isArrayLike c) = true)
    {b : TypeHint} (hb : b.OccursIn (arrayHint c ts)) : Origin c slot (.union ts) b := by
  have hname : b = .name (if ts.any (Ty.meansIterable c) then "iterable" else "array") →
      Origin c slot (.union ts) b := by
    rintro rfl
    split_ifs with hany
    · exact .iterables hall hany
    · exact .arrays hall
  by_cases hnull : Ty.null ∈ ts
  · simp only [arrayHint, if_pos hnull, TypeHint.occursIn_nullable, TypeHint.occursIn_name] at hb
    rcases hb with rfl | hbase
    · exact .nullable hnull rfl
    · exact hname hbase
  · simp only [arrayHint, if_neg hnull, TypeHint.occursIn_name] at hb
    exact hname hb

/-- **Everything that stands in a hint comes from a choice of the type.** -/
theorem exists_origin {t : Ty} {a b : TypeHint}
    (ha : (standard c h).hint slot t = .ok (some a)) (hb : b.OccursIn a) :
    ∃ s, s.ChoiceIn t ∧ Origin c slot s b := by
  induction t using Ty.induction generalizing a with
  | step t ih =>
    rcases t.isUnion_or_eq_union with hunion | ⟨ts, rfl⟩
    · rw [hint_of_isUnion hunion, Except.ok.injEq] at ha
      rw [(TypeHint.occursIn_of_isLeaf (isLeaf_of_ownHint? ha)).1 hb]
      exact ⟨t, .refl t, origin_of_ownHint? ha⟩
    · have hbelow : ∀ s ∈ ts, ∀ {a' : TypeHint}, (standard c h).hint slot s = .ok (some a') →
          b.OccursIn a' → ∃ r, r.ChoiceIn (.union ts) ∧ Origin c slot r b := by
        intro s hs a' ha' hb'
        obtain ⟨r, hr, horigin⟩ := ih s hs ha' hb'
        exact ⟨r, hr.member hs, horigin⟩
      cases unionStep_of_hint ha with
      | arrays hall heq =>
        rw [heq] at hb
        exact ⟨.union ts, .refl _, origin_of_arrayHint hall hb⟩
      | marked _ hpair hinner hleaf =>
        rcases TypeHint.occursIn_nullable.1 hb with rfl | hin
        · exact ⟨.union ts, .refl _, .nullable (Ty.null_mem_of_besideNull? hpair) hleaf⟩
        · exact hbelow _ (Ty.mem_of_besideNull? hpair) hinner hin
      | passed _ hpair hinner _ => exact hbelow _ (Ty.mem_of_besideNull? hpair) hinner hb
      | native _ _ hversion hmap =>
        rcases TypeHint.occursIn_union.1 hb with rfl | ⟨p, hp, hin⟩
        · exact ⟨.union ts, .refl _, .union hversion⟩
        · obtain ⟨s, hs, hsp⟩ := exists_hint_of_mem hmap hp
          exact hbelow s hs hsp hin
      | ancestor _ _ _ hancestor =>
        obtain ⟨ref, hmem, rfl⟩ := mem_of_commonAncestor? hancestor
        rw [TypeHint.occursIn_rooted.1 hb]
        exact ⟨.union ts, .refl _, .ancestor hmem⟩

end Renderer

end TypeScribe

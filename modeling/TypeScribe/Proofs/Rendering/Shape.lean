import Mathlib.Data.List.Forall2
import TypeScribe.Proofs.Rendering.Origin
/-!
# The shape of a hint

The hint of a normal type is a single name, a single name with a question
mark, or a row of single names, one for each member of the type and in
their order. The question mark is there exactly if `null` is a member of
the type: `null` is neither lost on the way through a union nor made up.

Types that are not normal may nest rows, but a question mark stands before
a single name in them, too (`shape_of_hint`).
-/

namespace TypeScribe

namespace Renderer

variable {c : Config} {h : Hierarchy} {slot : Slot}

/-- The shapes of hints. In a row, every member of the type stands with its
own hint. -/
inductive HasShape (c : Config) (h : Hierarchy) (slot : Slot) : Ty → TypeHint → Prop
  | leaf {t : Ty} {a : TypeHint} : a.isLeaf = true → HasShape c h slot t a
  | marked {t : Ty} {a : TypeHint} : a.isLeaf = true → HasShape c h slot t (.nullable a)
  | row {ts : List Ty} {as : List TypeHint} :
      List.Forall₂ (fun t a => a.isLeaf = true ∧ (standard c h).hint slot t = .ok (some a)) ts as →
      HasShape c h slot (.union ts) (.union as)

theorem isNullable_of_isLeaf {a : TypeHint} (ha : a.isLeaf = true) : a.isNullable = false := by
  cases a with
  | nullable b => cases ha
  | _ => rfl

/-- Lists that are alike under two maps are alike place by place. -/
theorem forall₂_of_map_eq {α β γ : Type} {f : α → γ} {g : β → γ} {l : List α} {l' : List β}
    (hmap : l.map f = l'.map g) : List.Forall₂ (fun x y => f x = g y) l l' := by
  rwa [← List.forall₂_eq_eq_eq, List.forall₂_map_left_iff, List.forall₂_map_right_iff] at hmap

/-- The hints of members that are no unions, place by place. -/
theorem forall₂_hint {ts : List Ty} (hflat : ∀ t ∈ ts, t.isUnion = false) {as : List TypeHint}
    (hmap : ts.map (ownHint? c slot) = as.map some) :
    List.Forall₂ (fun t a => a.isLeaf = true ∧ (standard c h).hint slot t = .ok (some a))
      ts as := by
  refine List.Forall₂.imp ?_ ((List.forall₂_and_left ts as).2 ⟨hflat, forall₂_of_map_eq hmap⟩)
  rintro t a ⟨hunion, ha⟩
  exact ⟨isLeaf_of_ownHint? ha, by rw [hint_of_isUnion hunion, ha]⟩

theorem hasShape_arrayHint {t : Ty} (ts : List Ty) :
    HasShape c h slot t (arrayHint c ts) ∧ ((arrayHint c ts).isNullable = true ↔ .null ∈ ts) := by
  by_cases hnull : Ty.null ∈ ts
  · simp only [arrayHint, if_pos hnull]
    exact ⟨.marked rfl, iff_of_true rfl hnull⟩
  · simp only [arrayHint, if_neg hnull]
    exact ⟨.leaf rfl, iff_of_false (by simp [TypeHint.isNullable]) hnull⟩

/-- **The shape of the hint of a flat union**, whichever of the four ways
it came about. -/
theorem hasShape_of_unionHint {ts : List Ty} (hflat : ∀ t ∈ ts, t.isUnion = false) {a : TypeHint}
    (ha : UnionHint c h slot ts a) :
    HasShape c h slot (.union ts) a ∧ (a.isNullable = true ↔ .null ∈ ts) := by
  cases ha with
  | arrays _ => exact hasShape_arrayHint ts
  | nullable _ hpair hone =>
    exact ⟨.marked (isLeaf_of_ownHint? hone), iff_of_true rfl (Ty.null_mem_of_besideNull? hpair)⟩
  | native _ _ _ hmap =>
    exact ⟨.row (forall₂_hint hflat hmap),
      iff_of_false (by simp [TypeHint.isNullable]) (null_not_mem_of_map hmap)⟩
  | ancestor _ _ _ hancestor =>
    obtain ⟨ref, -, rfl⟩ := mem_of_commonAncestor? hancestor
    refine ⟨.leaf rfl, iff_of_false (by simp [TypeHint.isNullable]) fun hnull => ?_⟩
    obtain ⟨other, hother⟩ := exists_object_of_commonAncestor? hancestor hnull
    cases hother

/-- **The shape of the hint of a normal type.** -/
theorem hasShape_of_hint {t : Ty} (ht : t.UnionsProper) {a : TypeHint}
    (ha : (standard c h).hint slot t = .ok (some a)) :
    HasShape c h slot t a ∧ (a.isNullable = true ↔ ∃ ts, t = .union ts ∧ .null ∈ ts) := by
  rcases t.isUnion_or_eq_union with hunion | ⟨ts, rfl⟩
  · rw [hint_of_isUnion hunion, Except.ok.injEq] at ha
    have hleaf := isLeaf_of_ownHint? ha
    refine ⟨.leaf hleaf, iff_of_false (by simp [isNullable_of_isLeaf hleaf]) ?_⟩
    rintro ⟨ts, rfl, -⟩
    cases hunion
  · have hflat := ht.properUnion.flat
    obtain ⟨hshape, hnull⟩ := hasShape_of_unionHint hflat ((hint_union_iff hflat).1 ha)
    exact ⟨hshape, by simp [hnull]⟩

/-- A question mark is contributed before a single name only. -/
theorem Origin.isLeaf {t : Ty} {a : TypeHint} (ho : Origin c slot t (.nullable a)) :
    a.isLeaf = true := by
  cases ho with
  | nullable _ hleaf => exact hleaf

/-- **Shape and nullability.** If all unions in a type are proper, its hint
has one of the three shapes and a question mark exactly if the type is a
union with `null`. Of all types, proper or not, question marks in the hint
stand before single names. -/
theorem shape_of_hint {t : Ty} {a : TypeHint}
    (ha : (standard c h).hint slot t = .ok (some a)) :
    (t.UnionsProper → HasShape c h slot t a ∧
      (a.isNullable = true ↔ ∃ ts, t = .union ts ∧ .null ∈ ts)) ∧
    ∀ b, (TypeHint.nullable b).OccursIn a → b.isLeaf = true := by
  refine ⟨fun ht => hasShape_of_hint ht ha, fun b hb => ?_⟩
  obtain ⟨s, -, horigin⟩ := exists_origin ha hb
  exact horigin.isLeaf

/-- A row of a normal type, and a row with a question mark inside of a type
that is not normal. -/
theorem shape_of_hint_rows :
    (Ty.union [.closure, .object (.named "\\App\\User")]).UnionsProper ∧
    HasShape {} .empty .param (.union [.closure, .object (.named "\\App\\User")])
      (.union [.name "callable", .rooted "App\\User"]) ∧
    (standard {} .empty).hint .param (.union [.union [.array .mixed, .null], .scalar .int]) =
      .ok (some (.union [.nullable (.name "array"), .name "int"])) ∧
    (TypeHint.name "array").isLeaf = true := by
  have hbuilt : (Ty.unionOf [.closure, .object (.named "\\App\\User")]).Built := by
    refine .unionOf fun t ht => ?_
    simp only [List.mem_cons, List.not_mem_nil, or_false] at ht
    rcases ht with rfl | rfl
    all_goals exact .leaf rfl
  have hrow : (standard {} .empty).hint .param
      (.union [.closure, .object (.named "\\App\\User")]) =
        .ok (some (.union [.name "callable", .rooted "App\\User"])) := rfl
  have hnested : (standard {} .empty).hint .param
      (.union [.union [.array .mixed, .null], .scalar .int]) =
        .ok (some (.union [.nullable (.name "array"), .name "int"])) := rfl
  exact ⟨hbuilt.normal.1, ((shape_of_hint hrow).1 hbuilt.normal.1).1, hnested,
    (shape_of_hint hnested).2 _ (by simp [TypeHint.occursIn_union, TypeHint.occursIn_nullable])⟩

end Renderer

end TypeScribe

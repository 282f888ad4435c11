import Mathlib.Logic.Relation
import TypeScribe.Proofs.Rendering.StandardHint
/-!
# Unions of any nesting

Types come as the inference builds them, with unions among the members of
unions. What a renderer with the default rules makes of such a union is a
matter of one step: `UnionStep` lists the outcomes a union may have, given
those of its members, and the condition under which each is reached.
`Ty.ChoiceIn` follows the members of unions down, and no further than
unions go, which is as far as the hint of a type looks.
-/

namespace TypeScribe

namespace Ty

/-- The types a union directly leaves to choose from. -/
def choices : Ty → List Ty
  | union ts => ts
  | _ => []

/-- One type is reached from another through members of unions only. -/
def ChoiceIn (s t : Ty) : Prop := Relation.ReflTransGen (fun a b => a ∈ b.choices) s t

theorem ChoiceIn.refl (t : Ty) : t.ChoiceIn t := Relation.ReflTransGen.refl

theorem ChoiceIn.member {s t : Ty} {ts : List Ty} (h : s.ChoiceIn t) (ht : t ∈ ts) :
    s.ChoiceIn (union ts) := h.tail ht

end Ty

namespace Renderer

variable {c : Config} {h : Hierarchy} {slot : Slot}

/-! ## All members of a union -/

/-- **The first member that has no hint or fails decides**; without one
there are as many hints as members. -/
theorem allHints_cases (f : Ty → Outcome) (ts : List Ty) :
    (∃ as, allHints (ts.map fun t => (t, f t)) = .ok (some as) ∧
      ts.map f = as.map fun a => .ok (some a)) ∨
    (allHints (ts.map fun t => (t, f t)) = .ok none ∧ ∃ t ∈ ts, f t = .ok none) ∨
    ∃ e, allHints (ts.map fun t => (t, f t)) = .error e ∧ ∃ t ∈ ts, f t = .error e := by
  induction ts with
  | nil => exact .inl ⟨[], rfl, rfl⟩
  | cons t ts ih =>
    rw [List.map_cons, List.map_cons]
    match ht : f t with
    | .error e => exact .inr (.inr ⟨e, rfl, t, by simp, ht⟩)
    | .ok none => exact .inr (.inl ⟨rfl, t, by simp, ht⟩)
    | .ok (some a) =>
      rw [allHints]
      rcases ih with ⟨as, has, hmap⟩ | ⟨hnone, s, hs, hsnone⟩ | ⟨e, herror, s, hs, hserror⟩
      · exact .inl ⟨a :: as, by rw [has]; rfl, by rw [hmap, List.map_cons]⟩
      · exact .inr (.inl ⟨by rw [hnone]; rfl, s, by simp [hs], hsnone⟩)
      · exact .inr (.inr ⟨e, by rw [herror]; rfl, s, by simp [hs], hserror⟩)

/-- **All hints are there exactly if every member has one.** -/
theorem allHints_eq_some_iff {f : Ty → Outcome} {ts : List Ty} {as : List TypeHint} :
    allHints (ts.map fun t => (t, f t)) = .ok (some as) ↔
      ts.map f = as.map fun a => .ok (some a) := by
  have hmissing : ∀ o : Outcome, (∀ a, o ≠ .ok (some a)) → (∃ t ∈ ts, f t = o) →
      ts.map f ≠ as.map fun a => .ok (some a) := by
    rintro o ho ⟨t, ht, hft⟩ hmap
    have hmem : o ∈ as.map fun a => (.ok (some a) : Outcome) :=
      hmap ▸ List.mem_map.2 ⟨t, ht, hft⟩
    obtain ⟨a, -, ha⟩ := List.mem_map.1 hmem
    exact ho a ha.symm
  rcases allHints_cases f ts with ⟨bs, hbs, hmap⟩ | ⟨hnone, hwithout⟩ | ⟨e, herror, hfails⟩
  · have hinj : Function.Injective fun a : TypeHint => (.ok (some a) : Outcome) :=
      fun a b hab => Option.some.inj (Except.ok.inj hab)
    rw [hbs, hmap, Except.ok.injEq, Option.some.injEq, List.map_inj_right fun _ _ hab => hinj hab]
  · rw [hnone]
    exact iff_of_false (by simp) (hmissing _ (by simp) hwithout)
  · rw [herror]
    exact iff_of_false (by simp) (hmissing _ (by simp) hfails)

/-! ## Common ancestors -/

/-- A common ancestor is the name of a class among the members. -/
theorem mem_of_commonAncestor? {m : Renderer} {ts : List Ty} {a : TypeHint}
    (ha : m.commonAncestor? ts = some a) :
    ∃ ref, .object ref ∈ ts ∧ a = .rooted (Text.unrooted ref.identity) := by
  obtain ⟨names, hnames, hfound⟩ := Option.bind_eq_some_iff.1 ha
  obtain ⟨found, hfind, hrooted⟩ := Option.bind_eq_some_iff.1 hfound
  have hmem : found.1 ∈ names := List.fst_mem_of_mem_zipIdx (List.mem_of_find?_eq_some hfind)
  have hsome : some found.1 ∈ ts.map fun t => t.classRef?.map ClassRef.identity := by
    rw [mapM_eq_some_iff.1 hnames]
    exact List.mem_map_of_mem hmem
  obtain ⟨t, ht, hidentity⟩ := List.mem_map.1 hsome
  cases t with
  | object ref =>
    rw [Ty.classRef?, Option.map_some, Option.some.injEq] at hidentity
    refine ⟨ref, ht, ?_⟩
    rw [hidentity]
    cases hrooted
    rfl
  | _ => cases hidentity

/-- Classes alone have a common ancestor. -/
theorem exists_object_of_commonAncestor? {m : Renderer} {ts : List Ty} {a : TypeHint}
    (ha : m.commonAncestor? ts = some a) {t : Ty} (ht : t ∈ ts) :
    ∃ ref, t = .object ref := by
  obtain ⟨names, hnames, -⟩ := Option.bind_eq_some_iff.1 ha
  have hsome : t.classRef?.map ClassRef.identity ∈ names.map some := by
    rw [← mapM_eq_some_iff.1 hnames]
    exact List.mem_map_of_mem ht
  cases t with
  | object ref => exact ⟨ref, rfl⟩
  | _ => simp [Ty.classRef?] at hsome

/-! ## One step -/

/-- The outcomes a union may have, from those of its members. -/
inductive UnionStep (c : Config) (h : Hierarchy) (slot : Slot) (ts : List Ty) : Outcome → Prop
  /-- All members are array-like. -/
  | arrays {a : TypeHint} : ts.all (Ty.isArrayLike c) = true → a = arrayHint c ts →
      UnionStep c h slot ts (.ok (some a))
  /-- What stands beside `null` takes a question mark. -/
  | marked {t : Ty} {a : TypeHint} : ts.all (Ty.isArrayLike c) = false →
      Ty.besideNull? ts = some t → (standard c h).hint slot t = .ok (some a) → a.isLeaf = true →
      UnionStep c h slot ts (.ok (some (.nullable a)))
  /-- What stands beside `null` has a question mark already, no hint, or
  fails. -/
  | passed {t : Ty} {o : Outcome} : ts.all (Ty.isArrayLike c) = false →
      Ty.besideNull? ts = some t → (standard c h).hint slot t = o →
      (∀ a, o = .ok (some a) → a.isNullable = true) → UnionStep c h slot ts o
  /-- What stands beside `null` is hinted as a union. -/
  | refused {t : Ty} {as : List TypeHint} : ts.all (Ty.isArrayLike c) = false →
      Ty.besideNull? ts = some t → (standard c h).hint slot t = .ok (some (.union as)) →
      UnionStep c h slot ts (.error (.nullableUnion t))
  /-- The hints of all members side by side. -/
  | native {as : List TypeHint} : ts.all (Ty.isArrayLike c) = false →
      Ty.besideNull? ts = none → c.supports .unionTypes = true →
      ts.map ((standard c h).hint slot) = as.map (fun a => .ok (some a)) →
      UnionStep c h slot ts (.ok (some (.union as)))
  /-- A member that stands in such a row fails. -/
  | failed {t : Ty} {e : RenderError} : ts.all (Ty.isArrayLike c) = false →
      Ty.besideNull? ts = none → c.supports .unionTypes = true → t ∈ ts →
      (standard c h).hint slot t = .error e → UnionStep c h slot ts (.error e)
  /-- A member to which all others are related, if there is one. -/
  | ancestor {a? : Option TypeHint} : ts.all (Ty.isArrayLike c) = false →
      Ty.besideNull? ts = none →
      (c.supports .unionTypes = true → ∃ t ∈ ts, (standard c h).hint slot t = .ok none) →
      (standard c h).commonAncestor? ts = a? → UnionStep c h slot ts (.ok a?)

/-- **One step**: whatever the members of a union are, its outcome is one
of those. -/
theorem unionStep_hint (c : Config) (h : Hierarchy) (slot : Slot) (ts : List Ty) :
    UnionStep c h slot ts ((standard c h).hint slot (.union ts)) := by
  rw [hint_union]
  cases hall : ts.all (Ty.isArrayLike c) with
  | true => exact .arrays hall rfl
  | false =>
    cases hpair : Ty.besideNull? ts with
    | some t =>
      dsimp only
      match ht : (standard c h).hint slot t with
      | .error e => exact .passed (o := .error e) hall hpair ht (by simp)
      | .ok none => exact .passed (o := .ok none) hall hpair ht (by simp)
      | .ok (some (.name s)) => exact .marked hall hpair ht rfl
      | .ok (some (.rooted s)) => exact .marked hall hpair ht rfl
      | .ok (some (.nullable a)) =>
        refine .passed (o := .ok (some (.nullable a))) hall hpair ht fun b hb => ?_
        cases hb
        rfl
      | .ok (some (.union as)) => exact .refused hall hpair ht
    | none =>
      dsimp only
      cases hunion : c.supports .unionTypes with
      | false => exact .ancestor hall hpair (by simp [hunion]) rfl
      | true =>
        rw [if_pos rfl]
        rcases allHints_cases ((standard c h).hint slot) ts with
          ⟨as, has, hmap⟩ | ⟨hnone, hmissing⟩ | ⟨e, herror, t, ht, hfails⟩
        · rw [has]
          exact .native hall hpair hunion hmap
        · rw [hnone]
          exact .ancestor hall hpair (fun _ => hmissing) rfl
        · rw [herror]
          exact .failed hall hpair hunion ht hfails

/-- The step taken by a union whose outcome is known. -/
theorem unionStep_of_hint {ts : List Ty} {o : Outcome}
    (ho : (standard c h).hint slot (.union ts) = o) : UnionStep c h slot ts o :=
  ho ▸ unionStep_hint c h slot ts

/-- The hint a row has at a member's place is that member's. -/
theorem exists_hint_of_mem {ts : List Ty} {as : List TypeHint}
    (hmap : ts.map ((standard c h).hint slot) = as.map (fun a => .ok (some a))) {a : TypeHint}
    (ha : a ∈ as) : ∃ t ∈ ts, (standard c h).hint slot t = .ok (some a) := by
  have hsome : (.ok (some a) : Outcome) ∈ ts.map ((standard c h).hint slot) := by
    rw [hmap]
    exact List.mem_map_of_mem ha
  exact List.mem_map.1 hsome

/-- **Only a union is hinted as a union**, and only where the version has
unions. -/
theorem isUnion_of_hint {t : Ty} {as : List TypeHint}
    (ht : (standard c h).hint slot t = .ok (some (.union as))) :
    t.isUnion = true ∧ c.supports .unionTypes = true := by
  rcases t.isUnion_or_eq_union with hunion | ⟨ts, rfl⟩
  · rw [hint_of_isUnion hunion, Except.ok.injEq] at ht
    cases isLeaf_of_ownHint? ht
  · refine ⟨rfl, ?_⟩
    cases unionStep_of_hint ht with
    | arrays _ harray =>
      have hnot := isUnion_arrayHint c ts
      rw [← harray] at hnot
      cases hnot
    | passed _ _ _ hnullable => cases hnullable _ rfl
    | native _ _ hversion _ => exact hversion
    | ancestor _ _ _ hancestor =>
      obtain ⟨ref, -, heq⟩ := mem_of_commonAncestor? hancestor
      cases heq

end Renderer

end TypeScribe

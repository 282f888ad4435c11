import TypeScribe.Proofs.Rendering.CommonAncestor
import TypeScribe.Proofs.TypeHint.Meaning
/-!
# What a hint keeps of a type

A hint says less than the type it was made from: it has no item types, no
aliases and no closures, and where hints cannot be unions a class stands
for all its relatives. `erased` is the type with all that left out,
computed from the type, the settings and the classes alone, without hints
or trees. The main result is that reading the tree of a hint gives exactly
the erased type.
-/

namespace TypeScribe

namespace Renderer

/-- What a hint keeps of a class: the enclosing one and `callable` are
words of their own, any other is its name from the root. -/
def erasedClass (ref : ClassRef) : Ty :=
  if ref.isSelf ∨ Text.fold ref.identity = "self" then .object (.selfRef "self")
  else if Text.fold ref.identity = "callable" then .callable
  else .object (.fullyQualified (Text.unrooted ref.identity))

/-- What a hint keeps of a type that is no union. -/
def erasedOne : Ty → Ty
  | .array _ => .array .mixed
  | .iterable _ => .iterable .mixed
  | .closure => .callable
  | .object ref => erasedClass ref
  | t => t

/-- What a hint keeps of a union of arrays. -/
def erasedArrays (c : Config) (ts : List Ty) : Ty :=
  let base := if ts.any (Ty.meansIterable c) then Ty.iterable .mixed else .array .mixed
  if .null ∈ ts then .union [base, .null] else base

/-- Whether a type is a class whose name hints cannot use. -/
def isUnnamed : Ty → Bool
  | .object ref =>
    !ref.isSelf && (Text.fold ref.identity == "static" || Text.fold ref.identity == "mixed")
  | _ => false

/-- What a hint keeps of a union: of arrays, of one type and `null`, of
types that can all be named where the version has unions, and else of
classes, the first that stands for them all. -/
def erasedUnion (c : Config) (h : Hierarchy) (ts : List Ty) : Ty :=
  if ts.all (Ty.isArrayLike c) then erasedArrays c ts
  else match Ty.besideNull? ts with
    | some t => .nullable (erasedOne t)
    | none =>
      if c.supports .unionTypes && !ts.any isUnnamed then .unionOf (ts.map erasedOne)
      else match ts.find? (standsFor h ts) with
        | some (.object ref) => .object (.fullyQualified (Text.unrooted ref.identity))
        | _ => .never

/-- **What a hint keeps of a type.** -/
def erased (c : Config) (h : Hierarchy) : Ty → Ty
  | .union ts => erasedUnion c h ts
  | t => erasedOne t

variable {c : Config} {h : Hierarchy} {slot : Slot}

/-! ## Types that are no union -/

/-- The hint of a class means what it keeps of the class. -/
theorem meaning_of_classHint? {ref : ClassRef} {a : TypeHint} (href : ref.isSelf = false)
    (ha : classHint? ref = some a) : a.meaning = erasedClass ref := by
  rw [classHint?_eq] at ha
  unfold erasedClass
  rw [href]
  split_ifs at ha with hcallable hself hother
  · cases ha
    rw [if_neg (by simp [hcallable]), if_pos hcallable]
    rfl
  · cases ha
    rw [if_pos (by simp [hself])]
    rfl
  · cases ha
    rw [if_neg (by simp [hself]), if_neg hcallable, TypeHint.meaning, Text.unrooted_unrooted]

/-- **The hint of a type that is no union means what it keeps of it.** -/
theorem meaning_of_ownHint? {t : Ty} {a : TypeHint} (ha : ownHint? c slot t = some a) :
    a.meaning = erasedOne t := by
  cases t with
  | scalar s =>
    simp only [ownHint?, Option.ite_none_right_eq_some, Option.some.injEq] at ha
    obtain ⟨-, rfl⟩ := ha
    cases s <;> rfl
  | object ref =>
    cases href : ref.isSelf with
    | false =>
      rw [ownHint?_object href] at ha
      exact meaning_of_classHint? href ha
    | true =>
      have hkept : erasedOne (.object ref) = .object (.selfRef "self") := by
        simp [erasedOne, erasedClass, href]
      cases ref with
      | selfRef s =>
        rw [ownHint?] at ha
        cases ha
        rw [hkept]
        rfl
      | _ => cases href
  | array t =>
    cases ha
    rfl
  | iterable _ | anyObject | closure | callable | void =>
    simp only [ownHint?, Option.ite_none_left_eq_some, Option.ite_none_right_eq_some,
      Option.some.injEq] at ha
    obtain ⟨-, rfl⟩ := ha
    rfl
  | _ => cases ha

/-- A class lacks a hint exactly if its name is one that hints cannot use. -/
theorem ownHint?_object_eq_none_iff (ref : ClassRef) :
    ownHint? c slot (.object ref) = none ↔ isUnnamed (.object ref) = true := by
  cases href : ref.isSelf with
  | true =>
    cases ref with
    | selfRef s => simp [ownHint?, isUnnamed, ClassRef.isSelf]
    | _ => cases href
  | false =>
    rw [ownHint?_object href, classHint?_eq, isUnnamed, href]
    split_ifs with hcallable hself hother
    · simp [hcallable]
    · simp [hself]
    · simpa using hother
    · simpa using hother

theorem any_isUnnamed_of_map {ts : List Ty} {as : List TypeHint}
    (hmap : ts.map (ownHint? c slot) = as.map some) : ts.any isUnnamed = false := by
  rw [List.any_eq_false]
  intro t ht hunnamed
  have hsome : ownHint? c slot t ∈ as.map some := hmap ▸ List.mem_map_of_mem ht
  obtain ⟨a, -, ha⟩ := List.mem_map.1 hsome
  cases t with
  | object ref =>
    rw [(ownHint?_object_eq_none_iff ref).2 hunnamed] at ha
    cases ha
  | _ => cases hunnamed

/-! ## Unions -/

theorem meaning_arrayHint (c : Config) (ts : List Ty) :
    (arrayHint c ts).meaning = erasedArrays c ts := by
  unfold arrayHint erasedArrays
  dsimp only
  split_ifs <;> rfl

theorem map_meaning {ts : List Ty} {as : List TypeHint}
    (hmap : ts.map (ownHint? c slot) = as.map some) :
    as.map TypeHint.meaning = ts.map erasedOne := by
  induction ts generalizing as with
  | nil =>
    cases as with
    | nil => rfl
    | cons a as => cases hmap
  | cons t ts ih =>
    cases as with
    | nil => cases hmap
    | cons a as =>
      rw [List.map_cons, List.map_cons, List.cons.injEq] at hmap
      rw [List.map_cons, List.map_cons, meaning_of_ownHint? hmap.1, ih hmap.2]

/-- A common ancestor is a class that stands for all members, by its name
from the root. -/
theorem exists_of_commonAncestor? {ts : List Ty} (hts : ts.Nodup) {a : TypeHint}
    (ha : (standard c h).commonAncestor? ts = some a) :
    ∃ ref, ts.find? (standsFor h ts) = some (.object ref) ∧
      a = .rooted (Text.unrooted ref.identity) := by
  rw [commonAncestor?_eq hts] at ha
  obtain ⟨ref, href, rfl⟩ := Option.map_eq_some_iff.1 ha
  obtain ⟨t, ht, hobject⟩ := Option.bind_eq_some_iff.1 href
  refine ⟨ref, ?_, rfl⟩
  cases t with
  | object other =>
    cases hobject
    exact ht
  | _ => cases hobject

/-- **The hint of a proper union means what it keeps of it**, whichever of
the four ways it came about. -/
theorem meaning_of_unionHint {ts : List Ty} (hts : ts.Nodup) {a : TypeHint}
    (ha : UnionHint c h slot ts a) : a.meaning = erasedUnion c h ts := by
  unfold erasedUnion
  cases ha with
  | arrays hall => rw [if_pos hall, meaning_arrayHint]
  | nullable hall hpair hone =>
    rw [if_neg (by simp [hall]), hpair, TypeHint.meaning, meaning_of_ownHint? hone]
  | native hall hpair hunion hmap =>
    rw [if_neg (by simp [hall]), hpair, hunion, any_isUnnamed_of_map hmap, TypeHint.meaning,
      TypeHint.meanings_eq_map, map_meaning hmap]
    rfl
  | ancestor hall hpair hmissing hancestor =>
    obtain ⟨ref, hfind, rfl⟩ := exists_of_commonAncestor? hts hancestor
    -- with unions at hand it takes a class without a hint to get here
    have hnative : (c.supports .unionTypes && !ts.any isUnnamed) = false := by
      cases hunion : c.supports .unionTypes with
      | false => rfl
      | true =>
        obtain ⟨t, ht, hnone⟩ := hmissing hunion
        have hany : ts.any isUnnamed = true := by
          refine List.any_eq_true.2 ⟨t, ht, ?_⟩
          cases hclass : t.classRef? with
          | none =>
            rw [find?_standsFor_eq_none ht hclass] at hfind
            cases hfind
          | some other =>
            cases t with
            | object r => exact (ownHint?_object_eq_none_iff r).1 hnone
            | _ => cases hclass
        rw [hany]
        rfl
    rw [if_neg (by simp [hall]), hpair, hnative, hfind, TypeHint.meaning, Text.unrooted_unrooted]
    rfl

/-- **A hint means exactly what it keeps of the type it was made from.** -/
theorem meaning_of_hint {t : Ty} (ht : t.UnionsProper) {a : TypeHint}
    (ha : (standard c h).hint slot t = .ok (some a)) : a.meaning = erased c h t := by
  cases hunion : t.isUnion with
  | false =>
    rw [hint_of_isUnion hunion, Except.ok.injEq] at ha
    have herased : erased c h t = erasedOne t := by
      cases t with
      | union ts => cases hunion
      | _ => rfl
    rw [herased, meaning_of_ownHint? ha]
  | true =>
    cases t with
    | union ts =>
      have hproper := ht.properUnion
      exact meaning_of_unionHint hproper.nodup ((hint_union_iff hproper.flat).1 ha)
    | _ => cases hunion

/-- **Reading back**: for every type whose unions are proper, the tree of
its hint states the type with all left out that a hint cannot say. -/
theorem statedTy?_tree_of_hint {t : Ty} (ht : t.UnionsProper) {a : TypeHint}
    (ha : (standard c h).hint slot t = .ok (some a)) :
    a.tree.statedTy? = some (erased c h t) := by
  rw [TypeHint.statedTy?_tree, meaning_of_hint ht ha]

/-- Reading back a union of five members, of which two are hinted alike and
one is the enclosing class in another spelling. -/
theorem statedTy?_tree_of_hint_five :
    (Ty.union [.array (.scalar .int), .closure, .callable, .object (.aliased "B" "\\Lib\\Base"),
      .object (.named "SELF")]).UnionsProper ∧
    (standard {} .empty).hint .any (.union [.array (.scalar .int), .closure, .callable,
      .object (.aliased "B" "\\Lib\\Base"), .object (.named "SELF")]) =
        .ok (some (.union [.name "array", .name "callable", .name "callable",
          .rooted "Lib\\Base", .name "self"])) ∧
    (TypeHint.union [.name "array", .name "callable", .name "callable", .rooted "Lib\\Base",
      .name "self"]).tree.statedTy? =
        some (.union [.array .mixed, .callable, .object (.fullyQualified "Lib\\Base"),
          .object (.selfRef "self")]) := by
  have hbuilt : (Ty.unionOf [.array (.scalar .int), .closure, .callable,
      .object (.aliased "B" "\\Lib\\Base"), .object (.named "SELF")]).Built := by
    refine .unionOf fun t ht => ?_
    simp only [List.mem_cons, List.not_mem_nil, or_false] at ht
    rcases ht with rfl | rfl | rfl | rfl | rfl
    · exact .array (.leaf rfl)
    all_goals exact .leaf rfl
  have hhint : (standard {} .empty).hint .any (.union [.array (.scalar .int), .closure, .callable,
      .object (.aliased "B" "\\Lib\\Base"), .object (.named "SELF")]) =
        .ok (some (.union [.name "array", .name "callable", .name "callable",
          .rooted "Lib\\Base", .name "self"])) := rfl
  exact ⟨hbuilt.normal.1, hhint, statedTy?_tree_of_hint hbuilt.normal.1 hhint⟩

end Renderer

end TypeScribe

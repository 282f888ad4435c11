import Mathlib.Tactic.SplitIfs
import TypeScribe.Proofs.Ty.Normal
import TypeScribe.Rendering.Hint
/-!
# Hints by the default rules

What a renderer with the default rules answers, in a form to reason from.
A type that is no union always has an answer, and it needs no rules to say
which (`ownHint?`). A union without unions among its members gets its hint
in one of four ways, which `UnionHint` lists with the conditions under
which each is reached; `hint_union_iff` says that the four are all there
is.
-/

namespace TypeScribe

/-! ## Lists of optional answers -/

/-- All answers are there exactly if the list of answers is. -/
theorem mapM_eq_some_iff {α β : Type} {f : α → Option β} {l : List α} {bs : List β} :
    l.mapM f = some bs ↔ l.map f = bs.map some := by
  induction l generalizing bs with
  | nil => cases bs <;> simp
  | cons a l ih =>
    rw [List.mapM_cons, List.map_cons]
    cases bs with
    | nil => cases f a <;> cases l.mapM f <;> simp
    | cons b bs =>
      rw [List.map_cons, List.cons.injEq, ← ih]
      cases f a <;> cases l.mapM f <;> simp

/-- An answer is missing exactly if a member has none. -/
theorem mapM_eq_none_iff {α β : Type} {f : α → Option β} {l : List α} :
    l.mapM f = none ↔ ∃ a ∈ l, f a = none := by
  induction l with
  | nil => simp
  | cons a l ih =>
    rw [List.mapM_cons]
    cases ha : f a with
    | none => simp [ha]
    | some b =>
      cases hl : l.mapM f with
      | none => simp [ha, ← ih, hl]
      | some bs => simp [ha, ← ih, hl]

namespace TypeHint

/-- Whether the hint is a single name. -/
def isLeaf : TypeHint → Bool
  | name _ | rooted _ => true
  | _ => false

end TypeHint

namespace Ty

/-- Whether a type may stand in a union of arrays: arrays, iterables,
`null`, and the class that counts as `iterable`. -/
def isArrayLike (c : Config) : Ty → Bool
  | array _ | iterable _ | null => true
  | object ref => Text.unrooted ref.identity == c.iterableMarker
  | _ => false

/-- Whether a type makes a union of arrays an `iterable`. -/
def meansIterable (c : Config) : Ty → Bool
  | iterable _ => true
  | object ref => Text.unrooted ref.identity == c.iterableMarker
  | _ => false

/-- The other member of two of which exactly one is `null`. -/
def besideNull? : List Ty → Option Ty
  | [null, t] => if t = null then none else some t
  | [t, null] => some t
  | _ => none

/-- The pair may be either way round. -/
theorem besideNull?_eq_some_iff {ts : List Ty} {t : Ty} :
    besideNull? ts = some t ↔ t ≠ null ∧ (ts = [null, t] ∨ ts = [t, null]) := by
  unfold besideNull?
  split <;> grind

theorem mem_of_besideNull? {ts : List Ty} {t : Ty} (h : besideNull? ts = some t) : t ∈ ts := by
  obtain ⟨-, rfl | rfl⟩ := besideNull?_eq_some_iff.1 h <;> simp

theorem null_mem_of_besideNull? {ts : List Ty} {t : Ty} (h : besideNull? ts = some t) :
    null ∈ ts := by
  obtain ⟨-, rfl | rfl⟩ := besideNull?_eq_some_iff.1 h <;> simp

end Ty

namespace Renderer

variable {c : Config} {h : Hierarchy} {slot : Slot}

/-! ## Types that are no union -/

/-- The hint of a type that is no union. -/
def ownHint? (c : Config) (slot : Slot) : Ty → Option TypeHint
  | .scalar s => if c.supports .scalarTypes then some (.name s.name) else none
  | .array _ => some (.name "array")
  | .iterable _ => if c.supports .iterableType then some (.name "iterable") else none
  | .object (.selfRef _) => some (.name "self")
  | .object ref => classHint? ref
  | .anyObject => if c.supports .objectType then some (.name "object") else none
  | .closure | .callable => if slot = .property then none else some (.name "callable")
  | .void =>
    if c.supports .voidType && slot ≠ .param && slot ≠ .property then some (.name "void") else none
  | _ => none

/-- **By the default rules, a type that is no union never fails.** -/
theorem hint_of_isUnion {t : Ty} (ht : t.isUnion = false) :
    (standard c h).hint slot t = .ok (ownHint? c slot t) := by
  cases t with
  | union ts => cases ht
  | object ref => cases ref <;> rfl
  | _ => rfl

/-- The hint of a class by the name that identifies it. -/
theorem classHint?_eq (ref : ClassRef) : classHint? ref =
    if Text.fold ref.identity = "callable" then some (.name "callable")
    else if Text.fold ref.identity = "self" then some (.name "self")
    else if Text.fold ref.identity = "static" ∨ Text.fold ref.identity = "mixed" then none
    else some (.rooted (Text.unrooted ref.identity)) := by
  unfold classHint? Text.fold
  dsimp only
  split <;> simp_all

theorem ownHint?_object {ref : ClassRef} (href : ref.isSelf = false) :
    ownHint? c slot (.object ref) = classHint? ref := by
  cases ref with
  | selfRef s => cases href
  | _ =>
    rw [ownHint?]
    simp

theorem isLeaf_of_classHint? {ref : ClassRef} {a : TypeHint} (ha : classHint? ref = some a) :
    a.isLeaf = true := by
  rw [classHint?_eq] at ha
  split_ifs at ha
  all_goals
    cases ha
    rfl

/-- The hint of a type that is no union is a single name. -/
theorem isLeaf_of_ownHint? {t : Ty} {a : TypeHint} (ha : ownHint? c slot t = some a) :
    a.isLeaf = true := by
  cases t with
  | object ref =>
    cases href : ref.isSelf with
    | true =>
      cases ref with
      | selfRef s =>
        rw [ownHint?] at ha
        cases ha
        rfl
      | _ => cases href
    | false =>
      rw [ownHint?_object href] at ha
      exact isLeaf_of_classHint? ha
  | _ =>
    simp only [ownHint?] at ha
    grind [TypeHint.isLeaf]

/-! ## Unions of arrays -/

/-- What an array-like type says about a union of arrays. -/
def arrayForm (c : Config) (t : Ty) : ArrayLike :=
  if t.meansIterable c then .iterable else if t = .null then .null else .array

/-- Array-like types are those that say something. -/
theorem arrayLike?_eq (t : Ty) : (standard c h).arrayLike? t =
    if t.isArrayLike c then some (arrayForm c t) else none := by
  cases t with
  | object ref =>
    by_cases hm : Text.unrooted ref.identity = c.iterableMarker
    · simp [arrayLike?, isIterableMarker, Ty.isArrayLike, arrayForm, Ty.meansIterable, standard, hm]
    · simp [arrayLike?, isIterableMarker, Ty.isArrayLike, standard, hm]
  | _ => simp [arrayLike?, Ty.isArrayLike, arrayForm, Ty.meansIterable]

theorem contains_iterable (ts : List Ty) :
    (ts.map (arrayForm c)).contains .iterable = ts.any (Ty.meansIterable c) := by
  rw [Bool.eq_iff_iff, List.contains_iff_mem, List.mem_map, List.any_eq_true]
  refine exists_congr fun t => and_congr_right fun _ => ?_
  unfold arrayForm
  split_ifs with hi hn <;> simp [hi]

theorem contains_null (ts : List Ty) : (ts.map (arrayForm c)).contains .null = decide (.null ∈ ts) := by
  have hform : ∀ t, arrayForm c t = .null ↔ t = .null := by
    intro t
    unfold arrayForm
    split_ifs with hi hn
    · have hne : t ≠ .null := by
        rintro rfl
        cases hi
      simp [hne]
    · simp [hn]
    · simp [hn]
  rw [Bool.eq_iff_iff, List.contains_iff_mem, List.mem_map, decide_eq_true_iff]
  constructor
  · rintro ⟨t, ht, heq⟩
    exact (hform t).1 heq ▸ ht
  · intro hnull
    exact ⟨.null, hnull, (hform .null).2 rfl⟩

/-- The hint of a union of arrays. -/
def arrayHint (c : Config) (ts : List Ty) : TypeHint :=
  let base := TypeHint.name (if ts.any (Ty.meansIterable c) then "iterable" else "array")
  if .null ∈ ts then .nullable base else base

theorem isUnion_arrayHint (c : Config) (ts : List Ty) : (arrayHint c ts).isUnion = false := by
  unfold arrayHint
  dsimp only
  split_ifs <;> rfl

/-- **Whether a union is one of arrays, and its hint if so.** -/
theorem arrayUnion?_eq (ts : List Ty) : (standard c h).arrayUnion? ts =
    if ts.all (Ty.isArrayLike c) then some (arrayHint c ts) else none := by
  unfold arrayUnion?
  split_ifs with hall
  · have hforms : ts.mapM (standard c h).arrayLike? = some (ts.map (arrayForm c)) := by
      rw [mapM_eq_some_iff, List.map_map]
      refine List.map_congr_left fun t ht => ?_
      rw [arrayLike?_eq, if_pos (List.all_eq_true.1 hall t ht)]
      rfl
    rw [hforms, Option.bind_eq_bind, Option.bind_some, contains_iterable, contains_null]
    simp [arrayHint]
  · have hforms : ts.mapM (standard c h).arrayLike? = none := by
      rw [mapM_eq_none_iff]
      simp only [List.all_eq_true, not_forall] at hall
      obtain ⟨t, ht, hnot⟩ := hall
      exact ⟨t, ht, by rw [arrayLike?_eq, if_neg hnot]⟩
    rw [hforms]
    rfl

/-! ## Unions -/

/-- Which member stands beside `null` does not depend on the outcomes. -/
theorem besideNull?_map {α : Type} (f : Ty → α) (ts : List Ty) :
    besideNull? (ts.map fun t => (t, f t)) = (Ty.besideNull? ts).map fun t => (t, f t) := by
  match ts with
  | [] => rfl
  | [t] => cases t <;> rfl
  | [s, t] => cases s <;> cases t <;> rfl
  | s :: t :: r :: rest => cases s <;> cases t <;> rfl

/-- **The hint of a union that no rule decides about**, from the outcomes of
its members. -/
theorem unionHint_map (m : Renderer) (f : Ty → Outcome) (ts : List Ty) :
    m.unionHint (ts.map fun t => (t, f t)) =
    match m.arrayUnion? ts, Ty.besideNull? ts with
    | some a, _ => .ok (some a)
    | none, some t => (f t).bind (addNull t)
    | none, none =>
      if m.supports .unionTypes then
        (allHints (ts.map fun t => (t, f t))).map fun as? =>
          (as?.map .union).or (m.commonAncestor? ts)
      else .ok (m.commonAncestor? ts) := by
  have hfst : (ts.map fun t => (t, f t)).map Prod.fst = ts := by
    simp [Function.comp_def]
  rw [unionHint]
  dsimp only
  rw [hfst, besideNull?_map]
  cases m.arrayUnion? ts with
  | some a => rfl
  | none =>
    cases Ty.besideNull? ts with
    | some t => rfl
    | none =>
      cases m.supports .unionTypes with
      | false => rfl
      | true =>
        match allHints (ts.map fun t => (t, f t)) with
        | .error e => rfl
        | .ok none => rfl
        | .ok (some as) => rfl

/-- By the default rules it is that of every union. -/
theorem hint_union (ts : List Ty) : (standard c h).hint slot (.union ts) =
    match ts.all (Ty.isArrayLike c), Ty.besideNull? ts with
    | true, _ => .ok (some (arrayHint c ts))
    | false, some t => ((standard c h).hint slot t).bind (addNull t)
    | false, none =>
      if c.supports .unionTypes then
        (allHints (ts.map fun t => (t, (standard c h).hint slot t))).map fun as? =>
          (as?.map .union).or ((standard c h).commonAncestor? ts)
      else .ok ((standard c h).commonAncestor? ts) := by
  have hrule : (standard c h).ruleFor? (.union ts) = none := rfl
  rw [hint, hrule]
  dsimp only
  rw [withHints_eq_map, unionHint_map, arrayUnion?_eq]
  cases ts.all (Ty.isArrayLike c) with
  | true => rfl
  | false => cases Ty.besideNull? ts <;> rfl

/-! ## Unions without unions among the members -/

theorem allHints_map (f : Ty → Option TypeHint) (ts : List Ty) :
    allHints (ts.map fun t => (t, .ok (f t))) = .ok (ts.mapM f) := by
  induction ts with
  | nil => rfl
  | cons t ts ih =>
    rw [List.map_cons, List.mapM_cons]
    cases ht : f t with
    | none => rfl
    | some a =>
      rw [allHints, ih]
      cases ts.mapM f <;> rfl

theorem addNull_map (t : Ty) : addNull t (ownHint? c slot t) =
    .ok ((ownHint? c slot t).map .nullable) := by
  cases ha : ownHint? c slot t with
  | none => rfl
  | some a =>
    have hleaf := isLeaf_of_ownHint? ha
    cases a with
    | name s => rfl
    | rooted s => rfl
    | nullable b => cases hleaf
    | union as => cases hleaf

/-- The hints of all members, if hints may be unions and every member has
one. -/
def nativeHints? (c : Config) (slot : Slot) (ts : List Ty) : Option (List TypeHint) :=
  if c.supports .unionTypes then ts.mapM (ownHint? c slot) else none

theorem nativeHints?_eq_some_iff {ts : List Ty} {as : List TypeHint} :
    nativeHints? c slot ts = some as ↔
      c.supports .unionTypes = true ∧ ts.map (ownHint? c slot) = as.map some := by
  unfold nativeHints?
  cases c.supports .unionTypes <;> simp [mapM_eq_some_iff]

theorem nativeHints?_eq_none_iff {ts : List Ty} : nativeHints? c slot ts = none ↔
    (c.supports .unionTypes = true → ∃ t ∈ ts, ownHint? c slot t = none) := by
  unfold nativeHints?
  cases c.supports .unionTypes <;> simp [mapM_eq_none_iff]

theorem null_not_mem_of_map {ts : List Ty} {as : List TypeHint}
    (hmap : ts.map (ownHint? c slot) = as.map some) : .null ∉ ts := by
  intro hnull
  have hsome : none ∈ as.map some := hmap ▸ List.mem_map_of_mem hnull
  simp at hsome

/-- The hint of a flat union: the first that is there of an array hint, one
with a question mark, the members' hints side by side, and a common
ancestor. -/
def flatHint? (c : Config) (h : Hierarchy) (slot : Slot) (ts : List Ty) : Option TypeHint :=
  match ts.all (Ty.isArrayLike c), Ty.besideNull? ts, nativeHints? c slot ts with
  | true, _, _ => some (arrayHint c ts)
  | false, some t, _ => (ownHint? c slot t).map .nullable
  | false, none, some as => some (.union as)
  | false, none, none => (standard c h).commonAncestor? ts

/-- **By the default rules, a flat union never fails.** -/
theorem hint_of_flat {ts : List Ty} (hflat : ∀ t ∈ ts, t.isUnion = false) :
    (standard c h).hint slot (.union ts) = .ok (flatHint? c h slot ts) := by
  have hhints : (ts.map fun t => (t, (standard c h).hint slot t)) =
      ts.map fun t => (t, .ok (ownHint? c slot t)) :=
    List.map_congr_left fun t ht => by rw [hint_of_isUnion (hflat t ht)]
  rw [hint_union, hhints, allHints_map, flatHint?]
  cases ts.all (Ty.isArrayLike c) with
  | true => rfl
  | false =>
    cases hpair : Ty.besideNull? ts with
    | some t =>
      have ht : t ∈ ts := Ty.mem_of_besideNull? hpair
      dsimp only
      rw [hint_of_isUnion (hflat t ht)]
      exact addNull_map t
    | none =>
      unfold nativeHints?
      cases c.supports .unionTypes with
      | true => cases ts.mapM (ownHint? c slot) <;> rfl
      | false => rfl

/-- The four ways in which a flat union gets a hint. Each is taken only if
those before it are not open. -/
inductive UnionHint (c : Config) (h : Hierarchy) (slot : Slot) (ts : List Ty) : TypeHint → Prop
  /-- All members are array-like. -/
  | arrays : ts.all (Ty.isArrayLike c) = true → UnionHint c h slot ts (arrayHint c ts)
  /-- One member with `null`. -/
  | nullable {t : Ty} {a : TypeHint} : ts.all (Ty.isArrayLike c) = false →
      Ty.besideNull? ts = some t → ownHint? c slot t = some a →
      UnionHint c h slot ts (.nullable a)
  /-- The hints of all members side by side. -/
  | native {as : List TypeHint} : ts.all (Ty.isArrayLike c) = false →
      Ty.besideNull? ts = none → c.supports .unionTypes = true →
      ts.map (ownHint? c slot) = as.map some → UnionHint c h slot ts (.union as)
  /-- A member to which all others are related. -/
  | ancestor {a : TypeHint} : ts.all (Ty.isArrayLike c) = false →
      Ty.besideNull? ts = none →
      (c.supports .unionTypes = true → ∃ t ∈ ts, ownHint? c slot t = none) →
      (standard c h).commonAncestor? ts = some a → UnionHint c h slot ts a

/-- **The four ways are all there is.** -/
theorem hint_union_iff {ts : List Ty} (hflat : ∀ t ∈ ts, t.isUnion = false) {a : TypeHint} :
    (standard c h).hint slot (.union ts) = .ok (some a) ↔ UnionHint c h slot ts a := by
  rw [hint_of_flat hflat, Except.ok.injEq, flatHint?]
  constructor
  · intro ha
    cases hall : ts.all (Ty.isArrayLike c) with
    | true =>
      rw [hall] at ha
      cases ha
      exact .arrays hall
    | false =>
      cases hpair : Ty.besideNull? ts with
      | some t =>
        rw [hall, hpair] at ha
        obtain ⟨b, hb, rfl⟩ := Option.map_eq_some_iff.1 ha
        exact .nullable hall hpair hb
      | none =>
        cases has : nativeHints? c slot ts with
        | some as =>
          rw [hall, hpair, has] at ha
          cases ha
          obtain ⟨hunion, hmap⟩ := nativeHints?_eq_some_iff.1 has
          exact .native hall hpair hunion hmap
        | none =>
          rw [hall, hpair, has] at ha
          exact .ancestor hall hpair (nativeHints?_eq_none_iff.1 has) ha
  · rintro (hall | ⟨hall, hpair, hb⟩ | ⟨hall, hpair, hunion, hmap⟩ | ⟨hall, hpair, hmissing, ha⟩)
    · rw [hall]
    · rw [hall, hpair]
      simp [hb]
    · rw [hall, hpair, nativeHints?_eq_some_iff.2 ⟨hunion, hmap⟩]
    · rw [hall, hpair, nativeHints?_eq_none_iff.2 hmissing]
      exact ha

end Renderer

end TypeScribe

import TypeScribe.Proofs.Rendering.Stability
/-!
# Repeated members of a union hint

A normalised union has no repeated members, but its hint may have: a hint
says nothing of item types, aliases and closures, so different members can
come out as one and the same hint, and the renderer puts the hints of all
members side by side without looking for repetitions. This file says
exactly when that happens (`nodup_union_hint_iff`): what a hint keeps of a
type determines the hint, so the members of the hint differ as long as
what is kept of the members of the type differs.
-/

namespace TypeScribe

namespace Renderer

variable {c : Config} {h : Hierarchy} {slot : Slot}

/-! ## What is kept determines the hint -/

/-- The hint of a class is found again by what it keeps of the class. -/
theorem ownHint?_erasedClass {ref : ClassRef} {a : TypeHint} (href : ref.isSelf = false)
    (ha : classHint? ref = some a) : ownHint? {} .any (erasedClass ref) = some a := by
  rw [classHint?_eq] at ha
  unfold erasedClass
  rw [href]
  split_ifs at ha with hcallable hself hother
  · cases ha
    rw [if_neg (by simp [hcallable]), if_pos hcallable]
    rfl
  · cases ha
    rw [if_pos (by simp [hself])]
    rfl
  · cases ha
    have hplain : ref.IsPlain := by simp_all [ClassRef.IsPlain]
    rw [if_neg (by simp [hself]), if_neg hcallable]
    exact ownHint?_rooted hplain

/-- **Whatever version and place a hint is for**, the newest version finds
it again by what it keeps of the type, where no place in particular is
asked for. -/
theorem ownHint?_of_erasedOne {t : Ty} {a : TypeHint} (ha : ownHint? c slot t = some a) :
    ownHint? {} .any (erasedOne t) = some a := by
  cases t with
  | object ref =>
    cases href : ref.isSelf with
    | false =>
      rw [ownHint?_object href] at ha
      exact ownHint?_erasedClass href ha
    | true =>
      have hkept : erasedOne (.object ref) = .object (.selfRef "self") := by
        simp [erasedOne, erasedClass, href]
      cases ref with
      | selfRef s =>
        rw [hkept]
        exact ha
      | _ => cases href
  | array item => exact ha
  | scalar _ | iterable _ | anyObject | closure | callable | void =>
    simp only [ownHint?, Option.ite_none_left_eq_some, Option.ite_none_right_eq_some,
      Option.some.injEq] at ha
    obtain ⟨-, rfl⟩ := ha
    rfl
  | _ => cases ha

/-- Hints that mean the same are the same, if they are the hints of types
that are no unions. -/
theorem eq_of_meaning_eq {ts : List Ty} {as : List TypeHint}
    (hmap : ts.map (ownHint? c slot) = as.map some) {a b : TypeHint} (ha : a ∈ as) (hb : b ∈ as)
    (hab : a.meaning = b.meaning) : a = b := by
  have hfound : ∀ x ∈ as, ownHint? {} .any x.meaning = some x := by
    intro x hx
    have hsome : some x ∈ ts.map (ownHint? c slot) := hmap ▸ List.mem_map_of_mem hx
    obtain ⟨t, -, ht⟩ := List.mem_map.1 hsome
    rw [meaning_of_ownHint? ht, ownHint?_of_erasedOne ht]
  have hsame := hfound a ha
  rw [hab, hfound b hb, Option.some.injEq] at hsame
  exact hsame.symm

/-! ## Repetitions -/

/-- The hints of several types differ exactly if what they keep of the
types differs. -/
theorem nodup_hints_iff {ts : List Ty} {as : List TypeHint}
    (hmap : ts.map (ownHint? c slot) = as.map some) :
    as.Nodup ↔ (ts.map erasedOne).Nodup := by
  rw [← map_meaning hmap]
  constructor
  · intro has
    exact has.map_on fun a ha b hb hab => eq_of_meaning_eq hmap ha hb hab
  · exact List.Nodup.of_map _

/-- **When a union hint repeats a member.** Of a type built by the
normalising constructors, a hint that is a union comes from a union and
has a member for each of its members. No two of these hints are equal
exactly if no two members of the type are the same to a hint: two arrays
or two iterables, two of closures, callables and the class of that name,
two mentions of the enclosing class or of any other class. -/
theorem nodup_union_hint_iff (c : Config) (h : Hierarchy) (slot : Slot) {t : Ty} (ht : t.Built)
    {as : List TypeHint} (ha : (standard c h).hint slot t = .ok (some (.union as))) :
    ∃ ts, t = .union ts ∧ as.length = ts.length ∧ (as.Nodup ↔ (ts.map erasedOne).Nodup) := by
  rcases t.isUnion_or_eq_union with hunion | ⟨ts, rfl⟩
  · rw [hint_of_isUnion hunion, Except.ok.injEq] at ha
    cases isLeaf_of_ownHint? ha
  · have hproper := ht.normal.1.properUnion
    have hway : UnionHint c h slot ts (.union as) := (hint_union_iff hproper.flat).1 ha
    exact ⟨ts, rfl, length_of_unionHint hproper.nodup hway,
      nodup_hints_iff (map_of_unionHint hproper.nodup hway)⟩

/-- A row of a number, a closure and a class, none of which a hint
confuses. -/
def numberClosureOrUser : Ty := .unionOf [.scalar .int, .closure, .object (.named "\\App\\User")]

theorem built_numberClosureOrUser : numberClosureOrUser.Built := .unionOf_leaves rfl

/-- Its hint repeats nothing. -/
theorem nodup_union_hint_iff_numberClosureOrUser :
    numberClosureOrUser.Built ∧
    (standard {} .empty).hint .param numberClosureOrUser =
      .ok (some (.union [.name "int", .name "callable", .rooted "App\\User"])) ∧
    [TypeHint.name "int", .name "callable", .rooted "App\\User"].Nodup := by
  have hhint : (standard {} .empty).hint .param numberClosureOrUser =
      .ok (some (.union [.name "int", .name "callable", .rooted "App\\User"])) := rfl
  obtain ⟨ts, heq, -, hiff⟩ := nodup_union_hint_iff {} .empty .param built_numberClosureOrUser hhint
  refine ⟨built_numberClosureOrUser, hhint, hiff.2 ?_⟩
  cases heq
  decide

/-- **A hint may repeat a member**: two arrays are one to a hint, and the
third member keeps them from being hinted as one. -/
theorem not_nodup_arraysOrNumber :
    (Ty.unionOf [.array (.scalar .int), .array (.scalar .string), .scalar .int]).Built ∧
    (standard {} .empty).hint .param
      (.unionOf [.array (.scalar .int), .array (.scalar .string), .scalar .int]) =
        .ok (some (.union [.name "array", .name "array", .name "int"])) ∧
    ¬ [TypeHint.name "array", .name "array", .name "int"].Nodup := by
  refine ⟨.unionOf fun t ht => ?_, rfl, by decide⟩
  simp only [List.mem_cons, List.not_mem_nil, or_false] at ht
  rcases ht with rfl | rfl | rfl
  · exact .array (.leaf rfl)
  · exact .array (.leaf rfl)
  · exact .leaf rfl

end Renderer

end TypeScribe

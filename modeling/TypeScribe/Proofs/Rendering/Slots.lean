import TypeScribe.Proofs.Rendering.NestedUnions
/-!
# Hints for stricter places

The place a hint is for makes a difference to two forms only: a property
takes no `callable`, and only a result takes `void`. In a union the
difference goes further, since a member without a hint leads to another
way of hinting the union. It still never changes a hint: the one way that
is open without all members' hints is a common ancestor, which takes
classes only, and the hints of classes are the same everywhere
(`unionHint_of_kept`). So by any rules a hint is kept in every place that
takes as much (`hint_of_le`).
-/

namespace TypeScribe

/-- How much a place takes: nothing special, `callable` as well, or both
`callable` and `void`. -/
def Slot.freedom : Slot → Nat
  | property => 0
  | param => 1
  | result | any => 2

namespace Renderer

variable {m : Renderer} {slot slot' : Slot} {t : Ty} {ts : List Ty} {a : TypeHint}

/-! ## Types that are no union -/

theorem voidHint?_eq (m : Renderer) (slot : Slot) :
    m.voidHint? slot =
      if m.supports .voidType ∧ 2 ≤ slot.freedom then some (.name "void") else none := by
  cases slot <;> simp [voidHint?, Slot.freedom]

theorem voidHint?_of_le (hle : slot.freedom ≤ slot'.freedom) (ha : m.voidHint? slot = some a) :
    m.voidHint? slot' = some a := by
  rw [voidHint?_eq, Option.ite_none_right_eq_some] at ha ⊢
  obtain ⟨⟨hversion, hfree⟩, ha⟩ := ha
  exact ⟨⟨hversion, by omega⟩, ha⟩

/-- The hint of a callable is that of its place. -/
theorem plainHint_callable (m : Renderer) (slot : Slot) :
    m.plainHint slot .callable =
      .ok (if 1 ≤ slot.freedom then some (.name "callable") else none) := by
  cases slot <;> rfl

/-- Without a rule, a hint is kept where the place takes as much. -/
theorem plainHint_of_le (hle : slot.freedom ≤ slot'.freedom)
    (ha : m.plainHint slot t = .ok (some a)) : m.plainHint slot' t = .ok (some a) := by
  have hcallable : m.plainHint slot .callable = .ok (some a) →
      m.plainHint slot' .callable = .ok (some a) := by
    rw [plainHint_callable, plainHint_callable, Except.ok.injEq, Except.ok.injEq,
      Option.ite_none_right_eq_some, Option.ite_none_right_eq_some]
    rintro ⟨hfree, ha⟩
    exact ⟨by omega, ha⟩
  cases t with
  | callable | closure => exact hcallable ha
  | _ => exact ha

theorem plainHint_congr (heq : slot.freedom = slot'.freedom) (t : Ty) :
    m.plainHint slot t = m.plainHint slot' t := by
  have hcallable : m.plainHint slot .callable = m.plainHint slot' .callable := by
    rw [plainHint_callable, plainHint_callable, heq]
  cases t with
  | callable | closure => exact hcallable
  | _ => rfl

/-- **Classes have the same hint everywhere.** -/
theorem hint_object (m : Renderer) (slot slot' : Slot) (ref : ClassRef) :
    m.hint slot (.object ref) = m.hint slot' (.object ref) := by
  cases ref <;> rfl

/-! ## Unions -/

/-- What takes a question mark has a hint. -/
theorem exists_of_bind_addNull {o : Outcome} (ha : o.bind (addNull t) = .ok (some a)) :
    ∃ b, o = .ok (some b) ∧ addNull t (some b) = .ok (some a) := by
  match o with
  | .error e => cases ha
  | .ok none => cases ha
  | .ok (some b) => exact ⟨b, rfl, ha⟩

/-- All hints together are kept if each is. -/
theorem allHints_of_kept {f g : Ty → Outcome} {as : List TypeHint}
    (hkept : ∀ t ∈ ts, ∀ a, f t = .ok (some a) → g t = .ok (some a))
    (hall : allHints (ts.map fun t => (t, f t)) = .ok (some as)) :
    allHints (ts.map fun t => (t, g t)) = .ok (some as) := by
  rw [allHints_eq_some_iff] at hall ⊢
  have hsame : ts.map g = ts.map f := by
    refine List.map_congr_left fun t ht => ?_
    have hmem : f t ∈ as.map fun a => (.ok (some a) : Outcome) :=
      hall ▸ List.mem_map_of_mem ht
    obtain ⟨a, -, ha⟩ := List.mem_map.1 hmem
    rw [← ha, hkept t ht a ha.symm]
  rw [hsame, hall]

/-- **A union keeps its hint where its members keep theirs**, and classes
have theirs unchanged. -/
theorem unionHint_of_kept {f g : Ty → Outcome}
    (hkept : ∀ t ∈ ts, ∀ a, f t = .ok (some a) → g t = .ok (some a))
    (hclasses : ∀ ref, f (.object ref) = g (.object ref))
    (ha : m.unionHint (ts.map fun t => (t, f t)) = .ok (some a)) :
    m.unionHint (ts.map fun t => (t, g t)) = .ok (some a) := by
  rw [unionHint_map] at ha ⊢
  cases harrays : m.arrayUnion? ts with
  | some b =>
    rw [harrays] at ha
    exact ha
  | none =>
    rw [harrays] at ha
    cases hpair : Ty.besideNull? ts with
    | some t =>
      rw [hpair] at ha
      obtain ⟨b, hb, hmarked⟩ := exists_of_bind_addNull ha
      dsimp only
      rw [hkept t (Ty.mem_of_besideNull? hpair) b hb]
      exact hmarked
    | none =>
      rw [hpair] at ha
      cases hversion : m.supports .unionTypes with
      | false =>
        rw [hversion] at ha
        exact ha
      | true =>
        rw [hversion] at ha
        dsimp only at ha ⊢
        rw [if_pos rfl] at ha ⊢
        rcases allHints_cases f ts with ⟨as, hall, -⟩ | ⟨hnone, -⟩ | ⟨e, herror, -⟩
        · rw [hall] at ha
          rw [allHints_of_kept hkept hall]
          exact ha
        · -- only a common ancestor is left, and it takes classes
          rw [hnone] at ha
          have hancestor : m.commonAncestor? ts = some a := Except.ok.inj ha
          have hsame : (ts.map fun t => (t, g t)) = ts.map fun t => (t, f t) := by
            refine List.map_congr_left fun t ht => ?_
            obtain ⟨ref, rfl⟩ := exists_object_of_commonAncestor? hancestor ht
            rw [hclasses]
          rw [hsame, hnone]
          exact ha
        · rw [herror] at ha
          cases ha

/-! ## All types -/

/-- **A hint is kept in every place that takes as much**, by any rules. -/
theorem hint_of_le (hle : slot.freedom ≤ slot'.freedom) (ha : m.hint slot t = .ok (some a)) :
    m.hint slot' t = .ok (some a) := by
  induction t using Ty.induction generalizing a with
  | step t ih =>
    cases t with
    | void =>
      rw [hint, Except.ok.injEq] at ha ⊢
      exact voidHint?_of_le hle ha
    | union ts =>
      rw [hint] at ha ⊢
      cases hrule : m.ruleFor? (.union ts) with
      | some r =>
        rw [hrule] at ha
        exact ha
      | none =>
        rw [hrule] at ha
        dsimp only at ha ⊢
        rw [withHints_eq_map] at ha ⊢
        exact unionHint_of_kept (fun t ht a => ih t ht) (hint_object m slot slot') ha
    | object ref => rw [← hint_object m slot slot']; exact ha
    | _ =>
      simp only [hint] at ha ⊢
      split
      · rename_i r hrule
        rw [hrule] at ha
        exact ha
      · rename_i hrule
        rw [hrule] at ha
        exact plainHint_of_le hle ha

/-- **Places that take the same have the same outcomes**, failures
included. -/
theorem hint_congr (heq : slot.freedom = slot'.freedom) (t : Ty) :
    m.hint slot t = m.hint slot' t := by
  induction t using Ty.induction with
  | step t ih =>
    cases t with
    | void => rw [hint, hint, voidHint?_eq, voidHint?_eq, heq]
    | union ts =>
      have hmembers : m.withHints slot ts = m.withHints slot' ts := by
        rw [withHints_eq_map, withHints_eq_map]
        exact List.map_congr_left fun t ht => by rw [ih t ht]
      rw [hint, hint, hmembers]
    | object ref => exact hint_object m slot slot' ref
    | _ => simp only [hint, plainHint_congr heq]

/-- **A stricter place only takes hints away.** By any rules, in any
version and for unions of any nesting, the hint of a property is that of a
parameter, and the hint of a parameter is that of a result. A result and
no place in particular have the same outcome, be it a hint, the lack of
one or a failure. -/
theorem hint_of_stricter_slot (m : Renderer) (t : Ty) :
    (∀ a, m.hint .property t = .ok (some a) → m.hint .param t = .ok (some a)) ∧
    (∀ a, m.hint .param t = .ok (some a) → m.hint .result t = .ok (some a)) ∧
    m.hint .result t = m.hint .any t := by
  have hproperty : Slot.property.freedom ≤ Slot.param.freedom := by decide
  have hparam : Slot.param.freedom ≤ Slot.result.freedom := by decide
  have hresult : Slot.result.freedom = Slot.any.freedom := rfl
  exact ⟨fun _ => hint_of_le hproperty, fun _ => hint_of_le hparam, hint_congr hresult t⟩

/-- A stricter place may have none of a hint that has a member too many. -/
example :
    (standard {} .empty).hint .result (.union [.scalar .int, .callable, .void]) =
      .ok (some (.union [.name "int", .name "callable", .name "void"])) ∧
    (standard {} .empty).hint .param (.union [.scalar .int, .callable, .void]) = .ok none :=
  ⟨rfl, rfl⟩

end Renderer

end TypeScribe

import TypeScribe.Proofs.Rendering.NestedUnions
/-!
# When a hint fails

By the default rules a hint fails in one way only: somewhere among the
choices of the type, `null` stands beside a type whose own hint is a
union, which cannot take a question mark. `clashes_of_error` finds that
place. It takes a union inside a union and a version that has unions, so
normal types never fail, and no type fails before that version.
-/

namespace TypeScribe

namespace Ty

/-- None of the unions among the choices of a type has a union as a
direct member. -/
def ChoicesFlat (t : Ty) : Prop := ∀ ts, (union ts).ChoiceIn t → ∀ s ∈ ts, s.isUnion = false

theorem ChoiceIn.occursIn {s t : Ty} (h : s.ChoiceIn t) : s.OccursIn t := by
  refine Relation.ReflTransGen.mono (fun a b hab => ?_) s t h
  cases b with
  | union ts => exact hab
  | _ => cases hab

/-- Proper unions have no unions as members. -/
theorem UnionsProper.choicesFlat {t : Ty} (h : t.UnionsProper) : t.ChoicesFlat := by
  intro ts hts
  have hproper : ProperUnion ts := h (union ts) hts.occursIn ts rfl
  exact hproper.flat

end Ty

namespace Renderer

variable {c : Config} {h : Hierarchy} {slot : Slot}

/-- Among the choices of a type, `null` stands beside a certain other type
that is hinted as a union. -/
def Clashes (c : Config) (h : Hierarchy) (slot : Slot) (inner t : Ty) : Prop :=
  ∃ ts as, (Ty.union ts).ChoiceIn t ∧ Ty.besideNull? ts = some inner ∧
    (standard c h).hint slot inner = .ok (some (.union as))

theorem Clashes.member {inner t : Ty} {ts : List Ty} (hclash : Clashes c h slot inner t)
    (ht : t ∈ ts) : Clashes c h slot inner (.union ts) := by
  obtain ⟨ts', as, hchoice, hpair, hinner⟩ := hclash
  exact ⟨ts', as, hchoice.member ht, hpair, hinner⟩

/-- A clash is one of a union inside a union, in a version that has
unions. -/
theorem Clashes.isUnion {inner t : Ty} (hclash : Clashes c h slot inner t) :
    c.supports .unionTypes = true ∧ inner.isUnion = true ∧
      ∃ ts, (Ty.union ts).ChoiceIn t ∧ inner ∈ ts := by
  obtain ⟨ts, as, hchoice, hpair, hinner⟩ := hclash
  obtain ⟨hunion, hversion⟩ := isUnion_of_hint hinner
  exact ⟨hversion, hunion, ts, hchoice, Ty.mem_of_besideNull? hpair⟩

/-- **A failure has a place**, and it names the type that stands there
beside `null`. Every union above hands it on unchanged. -/
theorem clashes_of_error {t : Ty} {e : RenderError}
    (he : (standard c h).hint slot t = .error e) :
    ∃ inner, Clashes c h slot inner t ∧ e = .nullableUnion inner := by
  induction t using Ty.induction with
  | step t ih =>
    rcases t.isUnion_or_eq_union with hunion | ⟨ts, rfl⟩
    · rw [hint_of_isUnion hunion] at he
      cases he
    · have hbelow : ∀ s ∈ ts, (standard c h).hint slot s = .error e →
          ∃ inner, Clashes c h slot inner (.union ts) ∧ e = .nullableUnion inner := by
        intro s hs hse
        obtain ⟨inner, hclash, heq⟩ := ih s hs hse
        exact ⟨inner, hclash.member hs, heq⟩
      cases unionStep_of_hint he with
      | passed _ hpair hinner _ => exact hbelow _ (Ty.mem_of_besideNull? hpair) hinner
      | refused _ hpair hinner => exact ⟨_, ⟨ts, _, .refl _, hpair, hinner⟩, rfl⟩
      | failed _ _ _ hs hse => exact hbelow _ hs hse

/-- Where nothing clashes there is an outcome. -/
theorem exists_hint_of_not_clashes {t : Ty} (hnone : ∀ inner, ¬ Clashes c h slot inner t) :
    ∃ a?, (standard c h).hint slot t = .ok a? := by
  cases ho : (standard c h).hint slot t with
  | ok a? => exact ⟨a?, rfl⟩
  | error e =>
    obtain ⟨inner, hclash, -⟩ := clashes_of_error ho
    exact absurd hclash (hnone inner)

theorem not_clashes_of_choicesFlat {t : Ty} (ht : t.ChoicesFlat) (inner : Ty) :
    ¬ Clashes c h slot inner t := by
  intro hclash
  obtain ⟨-, hunion, ts, hts, hmem⟩ := hclash.isUnion
  rw [ht ts hts inner hmem] at hunion
  cases hunion

/-- **Hints fail only on unions nested in unions.** There is a rule or a
fallback for every type; without unions in the version, or without a union
as a member of another, there is always an outcome, so normal types have
one; and the one failure that is left names a union that is a direct
member of another. -/
theorem hint_failures (c : Config) (h : Hierarchy) (slot : Slot) (t : Ty) :
    (∀ operation kind, (standard c h).hint slot t ≠ .error (.unsupported operation kind)) ∧
    (c.supports .unionTypes = false → ∃ a?, (standard c h).hint slot t = .ok a?) ∧
    (t.ChoicesFlat → ∃ a?, (standard c h).hint slot t = .ok a?) ∧
    (t.Built → ∃ a?, (standard c h).hint slot t = .ok a?) ∧
    ∀ inner, (standard c h).hint slot t = .error (.nullableUnion inner) →
      c.supports .unionTypes = true ∧
        inner.isUnion = true ∧ ∃ ts, (Ty.union ts).ChoiceIn t ∧ inner ∈ ts := by
  have hflat : t.ChoicesFlat → ∃ a?, (standard c h).hint slot t = .ok a? :=
    fun ht => exists_hint_of_not_clashes (not_clashes_of_choicesFlat ht)
  refine ⟨fun operation kind he => ?_, fun hversion => ?_, hflat,
    fun hbuilt => hflat hbuilt.normal.1.choicesFlat, fun inner he => ?_⟩
  · obtain ⟨inner, -, heq⟩ := clashes_of_error he
    cases heq
  · refine exists_hint_of_not_clashes fun inner hclash => ?_
    have hunion := hclash.isUnion.1
    rw [hversion] at hunion
    cases hunion
  · obtain ⟨inner', hclash, heq⟩ := clashes_of_error he
    cases heq
    exact hclash.isUnion

/-- The failure there is: `null` beside a union of scalars. -/
example : (standard {} .empty).hint .param
    (.union [.union [.scalar .int, .scalar .string], .null]) =
      .error (.nullableUnion (.union [.scalar .int, .scalar .string])) := rfl

end Renderer

end TypeScribe

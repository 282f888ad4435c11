import Mathlib.Data.List.FinRange
import Mathlib.Data.List.Permutation
import Mathlib.Tactic.Choose
import TypeScribe.Proofs.Rendering.ReadBack
import TypeScribe.Proofs.Rendering.Upgrade
/-!
# The order of the members

The members of a union are gone through in their order, by loops that stop
early, and still the order hardly shows in a hint. Which of the four ways
to a hint is open depends on the members alone, whatever their order; two
of the ways forget it, and one keeps it, member by member. Only the class
that stands for a whole union is the first that can, so another order may
find another one (`Reordered`).
-/

namespace TypeScribe

namespace Ty

/-- A pair with `null` may stand either way round. -/
theorem besideNull?_eq_some_iff_perm {ts : List Ty} {t : Ty} :
    besideNull? ts = some t ↔ t ≠ null ∧ ts.Perm [t, null] := by
  rw [besideNull?_eq_some_iff, List.perm_pair, or_comm]

theorem besideNull?_perm {ts ts' : List Ty} (hperm : ts.Perm ts') :
    besideNull? ts = besideNull? ts' := by
  ext t
  rw [besideNull?_eq_some_iff_perm, besideNull?_eq_some_iff_perm, hperm.congr_left]

/-- The members of a proper union are so in every order. -/
theorem properUnion_perm {ts ts' : List Ty} (hperm : ts.Perm ts') :
    ProperUnion ts ↔ ProperUnion ts' := by
  have hone : ∀ {l l' : List Ty}, l.Perm l' → ProperUnion l → ProperUnion l' := fun hl h =>
    ⟨hl.length_eq ▸ h.two_le, hl.nodup_iff.1 h.nodup, fun s hs => h.flat s (hl.mem_iff.2 hs)⟩
  exact ⟨hone hperm, hone hperm.symm⟩

end Ty

namespace Renderer

variable {c : Config} {h : Hierarchy} {slot : Slot} {n : Nat}

/-- What another order of the members makes of a hint. -/
inductive Reordered (σ : Equiv.Perm (Fin n)) (ms : Fin n → Ty) : TypeHint → TypeHint → Prop
  | name (s : String) : Reordered σ ms (.name s) (.name s)
  | nullable (a : TypeHint) : Reordered σ ms (.nullable a) (.nullable a)
  /-- The hints of the members move with them. -/
  | union (as : Fin n → TypeHint) :
      Reordered σ ms (.union (List.ofFn as)) (.union (List.ofFn (as ∘ σ)))
  /-- Another class among the members may stand for them all. -/
  | ancestor (s : String) {i : Fin n} {ref : ClassRef} : ms i = .object ref →
      Reordered σ ms (.rooted s) (.rooted (Text.unrooted ref.identity))

/-! ## The four ways -/

section Ways

variable {ts ts' : List Ty} (hperm : ts.Perm ts')
include hperm

theorem all_isArrayLike_perm : ts.all (Ty.isArrayLike c) = ts'.all (Ty.isArrayLike c) :=
  hperm.all_eq

/-- The hint of a union of arrays forgets the order. -/
theorem arrayHint_perm : arrayHint c ts = arrayHint c ts' := by
  have hany : ts.any (Ty.meansIterable c) = ts'.any (Ty.meansIterable c) := hperm.any_eq
  unfold arrayHint
  simp only [hany, hperm.mem_iff]

/-- Whether a class stands for a whole union does not depend on the order
of the others. -/
theorem standsFor_perm : standsFor h ts = standsFor h ts' := by
  funext t
  cases t with
  | object ref => exact hperm.all_eq
  | _ => rfl

/-- If one class stands for a union, one does in every order. -/
theorem exists_commonAncestor?_perm (hts : ts.Nodup) {a : TypeHint}
    (ha : (standard c h).commonAncestor? ts = some a) :
    ∃ ref, .object ref ∈ ts ∧
      (standard c h).commonAncestor? ts' = some (.rooted (Text.unrooted ref.identity)) := by
  obtain ⟨first, hfirst, -⟩ := exists_of_commonAncestor? hts ha
  have hsome : (ts'.find? (standsFor h ts')).isSome = true := by
    rw [List.find?_isSome, ← standsFor_perm hperm]
    exact ⟨_, hperm.mem_iff.1 (List.mem_of_find?_eq_some hfirst), List.find?_some hfirst⟩
  obtain ⟨t, hfound⟩ := Option.isSome_iff_exists.1 hsome
  have hstands : standsFor h ts' t = true := List.find?_some hfound
  cases t with
  | object ref =>
    refine ⟨ref, hperm.mem_iff.2 (List.mem_of_find?_eq_some hfound), ?_⟩
    rw [commonAncestor?_eq (hperm.nodup_iff.1 hts), hfound]
    rfl
  | _ => cases hstands

end Ways

/-- Hints that are there for all members are there at all places. -/
theorem exists_hints_of_map {ms : Fin n → Ty} {as : List TypeHint}
    (hmap : (List.ofFn ms).map (ownHint? c slot) = as.map some) :
    ∃ bs : Fin n → TypeHint, as = List.ofFn bs ∧ ∀ i, ownHint? c slot (ms i) = some (bs i) := by
  have hsome : ∀ i, ∃ b, ownHint? c slot (ms i) = some b := by
    intro i
    have hmem : ownHint? c slot (ms i) ∈ as.map some := by
      rw [← hmap]
      exact List.mem_map_of_mem (List.mem_ofFn.2 ⟨i, rfl⟩)
    obtain ⟨b, -, hb⟩ := List.mem_map.1 hmem
    exact ⟨b, hb.symm⟩
  choose bs hbs using hsome
  refine ⟨bs, ?_, hbs⟩
  have hboth : as.map some = (List.ofFn bs).map some := by
    rw [← hmap, List.map_ofFn, List.map_ofFn]
    exact congrArg List.ofFn (funext hbs)
  exact List.map_injective_iff.2 (Option.some_injective _) hboth

/-- **In another order the same way is open**, and this is what becomes of
the hint. -/
theorem UnionHint.reordered (σ : Equiv.Perm (Fin n)) {ms : Fin n → Ty}
    (hms : (List.ofFn ms).Nodup) {a : TypeHint} (ha : UnionHint c h slot (List.ofFn ms) a) :
    ∃ b, UnionHint c h slot (List.ofFn (ms ∘ σ)) b ∧ Reordered σ ms a b := by
  have hperm : (List.ofFn ms).Perm (List.ofFn (ms ∘ σ)) := (Equiv.Perm.ofFn_comp_perm σ ms).symm
  cases ha with
  | arrays hall =>
    have hall' := (all_isArrayLike_perm hperm).symm.trans hall
    refine ⟨_, .arrays hall', ?_⟩
    rw [← arrayHint_perm hperm]
    by_cases hnull : Ty.null ∈ List.ofFn ms
    · simp only [arrayHint, if_pos hnull]
      exact .nullable _
    · simp only [arrayHint, if_neg hnull]
      exact .name _
  | @nullable t a hall hpair hone =>
    have hall' := (all_isArrayLike_perm hperm).symm.trans hall
    have hpair' := (Ty.besideNull?_perm hperm).symm.trans hpair
    exact ⟨_, .nullable hall' hpair' hone, .nullable a⟩
  | native hall hpair hversion hmap =>
    have hall' := (all_isArrayLike_perm hperm).symm.trans hall
    have hpair' := (Ty.besideNull?_perm hperm).symm.trans hpair
    obtain ⟨bs, rfl, hbs⟩ := exists_hints_of_map hmap
    refine ⟨_, .native hall' hpair' hversion ?_, .union bs⟩
    rw [List.map_ofFn, List.map_ofFn]
    exact congrArg List.ofFn (funext fun i => hbs (σ i))
  | ancestor hall hpair hmissing hancestor =>
    have hall' := (all_isArrayLike_perm hperm).symm.trans hall
    have hpair' := (Ty.besideNull?_perm hperm).symm.trans hpair
    have hmissing' : c.supports .unionTypes = true →
        ∃ t ∈ List.ofFn (ms ∘ σ), ownHint? c slot t = none := by
      intro hversion
      obtain ⟨t, ht, hnone⟩ := hmissing hversion
      exact ⟨t, hperm.mem_iff.1 ht, hnone⟩
    obtain ⟨first, -, rfl⟩ := exists_of_commonAncestor? hms hancestor
    obtain ⟨ref, hmem, hother⟩ := exists_commonAncestor?_perm hperm hms hancestor
    obtain ⟨i, hi⟩ := List.mem_ofFn.1 hmem
    exact ⟨_, .ancestor hall' hpair' hmissing' hother, .ancestor _ hi⟩

/-- **What the order of the members changes.** A proper union has a hint in
one order of its members exactly if it has one in any other, and it never
fails. A hint that is a name or has a question mark is the same in every
order; the members of a union move as the members of the type do; and
where a class stands for the union, a class among the members does in
every order, though it may be another one. -/
theorem hint_of_reordered (c : Config) (h : Hierarchy) (slot : Slot) (σ : Equiv.Perm (Fin n))
    {ms : Fin n → Ty} (hms : Ty.ProperUnion (List.ofFn ms)) :
    ∃ a? b?, (standard c h).hint slot (.union (List.ofFn ms)) = .ok a? ∧
      (standard c h).hint slot (.union (List.ofFn (ms ∘ σ))) = .ok b? ∧
      Option.Rel (Reordered σ ms) a? b? := by
  have hms' : Ty.ProperUnion (List.ofFn (ms ∘ σ)) :=
    (Ty.properUnion_perm (Equiv.Perm.ofFn_comp_perm σ ms)).2 hms
  refine ⟨_, _, hint_of_flat hms.flat, hint_of_flat hms'.flat, ?_⟩
  have hway : ∀ a, flatHint? c h slot (List.ofFn ms) = some a ↔
      UnionHint c h slot (List.ofFn ms) a := fun a => by
    rw [← hint_union_iff hms.flat, hint_of_flat hms.flat, Except.ok.injEq]
  have hway' : ∀ b, flatHint? c h slot (List.ofFn (ms ∘ σ)) = some b ↔
      UnionHint c h slot (List.ofFn (ms ∘ σ)) b := fun b => by
    rw [← hint_union_iff hms'.flat, hint_of_flat hms'.flat, Except.ok.injEq]
  cases ha : flatHint? c h slot (List.ofFn ms) with
  | some a =>
    obtain ⟨b, hb, hreordered⟩ := ((hway a).1 ha).reordered σ hms.nodup
    rw [(hway' b).2 hb]
    exact .some hreordered
  | none =>
    cases hb : flatHint? c h slot (List.ofFn (ms ∘ σ)) with
    | none => exact .none
    | some b =>
      -- putting the members back in their places leads to a hint for the first order
      obtain ⟨a, hsome, -⟩ := ((hway' b).1 hb).reordered σ.symm hms'.nodup
      have hback : (ms ∘ σ) ∘ σ.symm = ms := funext fun i => congrArg ms (σ.apply_symm_apply i)
      rw [hback, ← hway, ha] at hsome
      cases hsome

/-- Without unions in hints the parent comes first where its mention
does. -/
theorem hint_animalOrDog (hversion : c.supports .unionTypes = false)
    (harrays : dogOrAnimal.reverse.all (Ty.isArrayLike c) = false) :
    (standard c dogs).hint slot (.union dogOrAnimal.reverse) = .ok (some (.rooted "Animal")) := by
  have hproper : Ty.ProperUnion dogOrAnimal.reverse := by
    rw [Ty.properUnion_perm (List.reverse_perm dogOrAnimal)]
    exact unionsProper_dogOrAnimal.properUnion
  have hstands : standsFor dogs dogOrAnimal.reverse (.object (.named "Animal")) = true := by
    simp [standsFor, dogOrAnimal, ClassRef.identity, Hierarchy.related_comm dogs "Animal",
      related_dogs]
  exact hint_of_first_standsFor hproper hversion harrays rfl hstands

/-- The other way round, the union of a class and its parent is hinted by
the parent. -/
theorem hint_of_reordered_dogs :
    Ty.ProperUnion (List.ofFn dogOrAnimal.get) ∧
    (standard { version := ⟨70400, by decide⟩ } dogs).hint .param
      (.union (List.ofFn dogOrAnimal.get)) = .ok (some (.rooted "Dog")) ∧
    (standard { version := ⟨70400, by decide⟩ } dogs).hint .param
      (.union (List.ofFn (dogOrAnimal.get ∘ Fin.revPerm))) = .ok (some (.rooted "Animal")) ∧
    Reordered Fin.revPerm dogOrAnimal.get (.rooted "Dog") (.rooted "Animal") := by
  have hproper : Ty.ProperUnion (List.ofFn dogOrAnimal.get) :=
    unionsProper_dogOrAnimal.properUnion
  have hdog : (standard { version := ⟨70400, by decide⟩ } dogs).hint .param
      (.union (List.ofFn dogOrAnimal.get)) = .ok (some (.rooted "Dog")) := hint_dogOrAnimal rfl rfl
  have hanimal : (standard { version := ⟨70400, by decide⟩ } dogs).hint .param
      (.union (List.ofFn (dogOrAnimal.get ∘ Fin.revPerm))) = .ok (some (.rooted "Animal")) :=
    hint_animalOrDog rfl rfl
  obtain ⟨a?, b?, ha, hb, hreordered⟩ := hint_of_reordered { version := ⟨70400, by decide⟩ } dogs
    .param Fin.revPerm hproper
  obtain rfl : some (.rooted "Dog") = a? := Except.ok.inj (hdog.symm.trans ha)
  obtain rfl : some (.rooted "Animal") = b? := Except.ok.inj (hanimal.symm.trans hb)
  cases hreordered with
  | some hboth => exact ⟨hproper, hdog, hanimal, hboth⟩

end Renderer

end TypeScribe

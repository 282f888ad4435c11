import Mathlib.Data.List.Basic
import Mathlib.Data.List.Induction
/-!
# First occurrences

Unions and doc types keep of every repeated member only the first, which
is `List.eraseDups`. This file has its laws: what is left has no
repetitions, keeps its order and nothing is lost, filters and maps that identify nothing
pass through it, and whether two lists have the same first occurrences can
be settled part by part. `FirstOccurrences` says what the first
occurrences of a list are without a way to find them; there is one such
list, and it is this one.
-/

namespace TypeScribe

namespace Distinct

variable {α β : Type} [BEq α]

/-- The recursion of `eraseDups`: a list is settled once the rest of it is
settled with the head taken out. -/
theorem induction {P : List α → Prop} (nil : P [])
    (cons : ∀ a l, P (l.filter fun b => !b == a) → P (a :: l)) : ∀ l : List α, P l
  | [] => nil
  | a :: l => cons a l (induction nil cons _)
termination_by l => l.length
decreasing_by exact Nat.lt_succ_of_le (List.length_filter_le ..)

/-- What is left keeps its order. -/
theorem eraseDups_sublist (l : List α) : l.eraseDups.Sublist l := by
  induction l using Distinct.induction with
  | nil => exact .slnil
  | cons a l ih =>
    rw [List.eraseDups_cons]
    exact (ih.trans List.filter_sublist).cons_cons a

variable [LawfulBEq α] [BEq β] [LawfulBEq β]

/-- What is left has no repetitions. -/
theorem nodup_eraseDups (l : List α) : l.eraseDups.Nodup := by
  induction l using Distinct.induction with
  | nil => simp
  | cons a l ih =>
    rw [List.eraseDups_cons, List.nodup_cons]
    exact ⟨by simp, ih⟩

theorem eraseDups_of_nodup {l : List α} (h : l.Nodup) : l.eraseDups = l := by
  induction l with
  | nil => rfl
  | cons a l ih =>
    obtain ⟨ha, hl⟩ := List.nodup_cons.1 h
    have hkeep : (l.filter fun b => !b == a) = l :=
      List.filter_eq_self.2 fun b hb => by
        have hne : b ≠ a := fun hba => ha (hba ▸ hb)
        simp [hne]
    rw [List.eraseDups_cons, hkeep, ih hl]

/-- Something is left unless there was nothing. -/
theorem eraseDups_eq_nil_iff {l : List α} : l.eraseDups = [] ↔ l = [] := by
  simp only [List.eq_nil_iff_forall_not_mem, List.mem_eraseDups]

/-- An entry at the end counts only if it is new. -/
theorem eraseDups_concat (l : List α) (a : α) :
    (l ++ [a]).eraseDups = if a ∈ l then l.eraseDups else l.eraseDups ++ [a] := by
  rw [List.eraseDups_append]
  by_cases ha : a ∈ l
  · simp [List.removeAll, ha]
  · simp [List.removeAll, ha, List.eraseDups_cons]

/-- **Collecting entries one by one**, each unless it is there already,
collects first occurrences. -/
theorem foldl_unless_mem (l new : List α) :
    new.foldl (fun known a => if a ∈ known then known else known ++ [a]) l.eraseDups =
      (l ++ new).eraseDups := by
  induction new generalizing l with
  | nil => rw [List.foldl_nil, List.append_nil]
  | cons a new ih =>
    have hstep : (if a ∈ l.eraseDups then l.eraseDups else l.eraseDups ++ [a]) =
        (l ++ [a]).eraseDups := by
      simp only [eraseDups_concat, List.mem_eraseDups]
    rw [List.foldl_cons, hstep, ih, List.append_assoc, List.singleton_append]

/-- A filter may be applied before or after. -/
theorem eraseDups_filter (p : α → Bool) (l : List α) :
    (l.filter p).eraseDups = l.eraseDups.filter p := by
  induction l using Distinct.induction with
  | nil => rfl
  | cons a l ih =>
    rw [List.eraseDups_cons]
    by_cases hp : p a
    · rw [List.filter_cons_of_pos hp, List.eraseDups_cons, List.filter_cons_of_pos hp, ← ih,
        List.filter_comm]
    · -- the filter takes out the head and everything equal to it
      have hsame : l.filter p = (l.filter fun b => !b == a).filter p := by
        rw [List.filter_filter]
        refine List.filter_congr fun b _ => ?_
        by_cases hba : b = a
        · simp [hba, hp]
        · simp [hba]
      rw [List.filter_cons_of_neg hp, List.filter_cons_of_neg hp, ← ih, hsame]

/-- So may a map that keeps the members of the list apart. -/
theorem eraseDups_map {f : α → β} {l : List α} (hf : ∀ a ∈ l, ∀ b ∈ l, f a = f b → a = b) :
    (l.map f).eraseDups = l.eraseDups.map f := by
  induction l using Distinct.induction with
  | nil => rfl
  | cons a l ih =>
    have hapart : ∀ b ∈ l, ((!f b == f a) = true ↔ (!b == a) = true) := by
      intro b hb
      have hba : f b = f a → b = a := hf b (by simp [hb]) a (by simp)
      by_cases h : b = a
      · simp [h]
      · have hne : f b ≠ f a := fun hfb => h (hba hfb)
        simp [h, hne]
    have hfilter : ((l.map f).filter fun b => !b == f a) = (l.filter fun b => !b == a).map f := by
      rw [List.filter_map]
      exact congrArg (List.map f) (List.filter_congr fun b hb => Bool.eq_iff_iff.2 (hapart b hb))
    rw [List.map_cons, List.eraseDups_cons, List.eraseDups_cons, List.map_cons, hfilter, ih]
    intro b hb c hc
    exact hf b (List.mem_cons_of_mem _ (List.mem_of_mem_filter hb)) c
      (List.mem_cons_of_mem _ (List.mem_of_mem_filter hc))

/-! ## What first occurrences are -/

/-- The entries of a list, ordered by the places where they are first
found in it. -/
structure FirstOccurrences (l firsts : List α) : Prop where
  mem_iff : ∀ a, a ∈ firsts ↔ a ∈ l
  order : firsts.Pairwise fun a b => l.idxOf a < l.idxOf b

omit [LawfulBEq α] in
/-- The order leaves no room for repetitions. -/
theorem FirstOccurrences.nodup {l firsts : List α} (h : FirstOccurrences l firsts) :
    firsts.Nodup := by
  refine h.order.imp fun hlt heq => ?_
  rw [heq] at hlt
  exact Nat.lt_irrefl _ hlt

/-- What is left stands in the order of first places. -/
theorem firstOccurrences_eraseDups (l : List α) : FirstOccurrences l l.eraseDups := by
  refine ⟨fun a => List.mem_eraseDups, ?_⟩
  induction l using List.reverseRec with
  | nil => exact .nil
  | append_singleton l a ih =>
    -- the place of an old entry stays, a new entry comes after all of them
    have hold : l.eraseDups.Pairwise fun b c => (l ++ [a]).idxOf b < (l ++ [a]).idxOf c := by
      refine ih.imp_of_mem fun {b c} hb hc hlt => ?_
      rw [List.idxOf_append_of_mem (List.mem_eraseDups.1 hb),
        List.idxOf_append_of_mem (List.mem_eraseDups.1 hc)]
      exact hlt
    rw [eraseDups_concat]
    split
    · exact hold
    · rename_i hnew
      refine List.pairwise_append.2 ⟨hold, List.pairwise_singleton _ _, fun b hb c hc => ?_⟩
      have hb : b ∈ l := List.mem_eraseDups.1 hb
      rw [List.mem_singleton.1 hc, List.idxOf_append_of_mem hb,
        List.idxOf_append_of_notMem hnew]
      exact Nat.lt_add_right _ (List.idxOf_lt_length_of_mem hb)

/-- **A list has one list of first occurrences.** -/
theorem firstOccurrences_iff {l firsts : List α} :
    FirstOccurrences l firsts ↔ firsts = l.eraseDups := by
  constructor
  · intro h
    have hleft := firstOccurrences_eraseDups l
    have hperm : firsts.Perm l.eraseDups :=
      (List.perm_ext_iff_of_nodup h.nodup hleft.nodup).2 fun a =>
        (h.mem_iff a).trans (hleft.mem_iff a).symm
    refine hperm.eq_of_pairwise (fun a b _ _ hab hba => ?_) h.order hleft.order
    exact absurd hba (Nat.lt_asymm hab)
  · rintro rfl
    exact firstOccurrences_eraseDups l

/-! ## Lists with the same first occurrences -/

theorem mem_iff_of_eraseDups_eq {l l' : List α} (h : l.eraseDups = l'.eraseDups) (a : α) :
    a ∈ l ↔ a ∈ l' := by
  rw [← List.mem_eraseDups, h, List.mem_eraseDups]

/-- **First occurrences are settled part by part.** -/
theorem eraseDups_append_congr {l l' m m' : List α} (hl : l.eraseDups = l'.eraseDups)
    (hm : m.eraseDups = m'.eraseDups) : (l ++ m).eraseDups = (l' ++ m').eraseDups := by
  have hmem : ∀ a, l.elem a = l'.elem a := by
    intro a
    rw [Bool.eq_iff_iff, List.elem_iff, List.elem_iff]
    exact mem_iff_of_eraseDups_eq hl a
  have hrest : (m.removeAll l).eraseDups = (m'.removeAll l').eraseDups := by
    unfold List.removeAll
    rw [eraseDups_filter, eraseDups_filter, hm]
    exact List.filter_congr fun a _ => by rw [hmem a]
  rw [List.eraseDups_append, List.eraseDups_append, hl, hrest]

/-- So it is settled by what each of many parts has to offer. -/
theorem eraseDups_flatMap_congr {ι : Type} {f g : ι → List α} {l : List ι}
    (h : ∀ i ∈ l, (f i).eraseDups = (g i).eraseDups) :
    (l.flatMap f).eraseDups = (l.flatMap g).eraseDups := by
  induction l with
  | nil => rfl
  | cons i l ih =>
    have hrest := ih fun j hj => h j (by simp [hj])
    rw [List.flatMap_cons, List.flatMap_cons, eraseDups_append_congr (h i (by simp)) hrest]

/-- Leaving out repetitions twice leaves out no more. -/
@[simp] theorem eraseDups_eraseDups (l : List α) : l.eraseDups.eraseDups = l.eraseDups :=
  eraseDups_of_nodup (nodup_eraseDups l)

/-- Parts that come again bring nothing new. -/
theorem eraseDups_flatMap_eraseDups (f : α → List β) (l : List α) :
    (l.eraseDups.flatMap f).eraseDups = (l.flatMap f).eraseDups := by
  induction l using Distinct.induction with
  | nil => rfl
  | cons a l ih =>
    -- what the head contributes is taken out of the rest, so its later copies add nothing
    have hdrop : ((l.filter fun b => !b == a).flatMap f).removeAll (f a) =
        (l.flatMap f).removeAll (f a) := by
      unfold List.removeAll
      clear ih
      induction l with
      | nil => rfl
      | cons b l ih =>
        by_cases hb : b = a
        · subst hb
          have hnone : ((f b).filter fun c => !(f b).elem c) = [] := by
            simp
          rw [List.filter_cons_of_neg (by simp), ih, List.flatMap_cons, List.filter_append, hnone,
            List.nil_append]
        · rw [List.filter_cons_of_pos (by simp [hb]), List.flatMap_cons, List.flatMap_cons,
            List.filter_append, List.filter_append, ih]
    rw [List.eraseDups_cons, List.flatMap_cons, List.flatMap_cons,
      eraseDups_append_congr rfl ih, List.eraseDups_append, List.eraseDups_append, hdrop]

/-- Nor do entries that come again, whatever they are mapped to. -/
theorem eraseDups_map_eraseDups (f : α → β) (l : List α) :
    (l.eraseDups.map f).eraseDups = (l.map f).eraseDups := by
  rw [← List.flatMap_pure_eq_map, ← List.flatMap_pure_eq_map]
  exact eraseDups_flatMap_eraseDups _ l

end Distinct

end TypeScribe

import Mathlib.Data.List.Basic
import TypeScribe.Proofs.Distinct
/-!
# Words in a row

Doc comments put the alternatives of a type in a row, with a bar between
two of them. How long such a row is depends on how many words it has and
how long they are, and that is enough to tell some rows apart: a row is
longer than a row of shorter words, and a row with repetitions is longer
than the row without them.
-/

namespace TypeScribe

namespace Text

variable {α : Type}

/-- A text that can stand in a row and be found again. -/
structure IsWord (s : String) : Prop where
  ne_empty : s ≠ ""
  bar_not_mem : '|' ∉ s.toList

theorem IsWord.append {s t : String} (hs : IsWord s) (ht : '|' ∉ t.toList) : IsWord (s ++ t) where
  ne_empty hempty := hs.ne_empty (String.append_eq_empty_iff.1 hempty).1
  bar_not_mem := by
    rw [String.toList_append, List.mem_append]
    exact fun hbar => hbar.elim hs.bar_not_mem ht

/-- Words in a row, with bars between them. -/
abbrev row (words : List String) : String := "|".intercalate words

/-- How long words are together, each with a bar after it. -/
def barredLength : List String → Nat
  | [] => 0
  | w :: words => w.length + 1 + barredLength words

/-- Only the last word of a row has no bar after it. -/
theorem length_row {words : List String} (hne : words ≠ []) :
    (row words).length + 1 = barredLength words := by
  induction words with
  | nil => exact absurd rfl hne
  | cons v words ih =>
    cases words with
    | nil => simp [row, barredLength]
    | cons w words =>
      have hrest := ih (by simp)
      have hbar : "|".length = 1 := by decide
      rw [row] at hrest ⊢
      rw [String.intercalate_cons_cons, String.length_append, String.length_append, barredLength]
      omega

theorem length_le_barredLength (words : List String) : words.length ≤ barredLength words := by
  induction words with
  | nil => exact Nat.le_refl 0
  | cons w words ih =>
    rw [List.length_cons, barredLength]
    omega

/-- A row of two words or more is not empty, whatever the words are. -/
theorem row_ne_empty {words : List String} (htwo : 2 ≤ words.length) : row words ≠ "" := by
  intro hempty
  have hne : words ≠ [] := by
    rintro rfl
    simp at htwo
  have hlength := length_row hne
  have hcount := length_le_barredLength words
  rw [hempty, String.length_empty] at hlength
  omega

/-- Words that grow by a number each make a row grow by as much for every
word. -/
theorem barredLength_map_add_le {f g : α → String} {k : Nat} {l : List α}
    (hgrow : ∀ a ∈ l, (f a).length + k ≤ (g a).length) :
    barredLength (l.map f) + k * l.length ≤ barredLength (l.map g) := by
  induction l with
  | nil => exact Nat.le_refl _
  | cons a l ih =>
    have hhead := hgrow a (by simp)
    have hrest := ih fun b hb => hgrow b (by simp [hb])
    have hmul : k * (l.length + 1) = k * l.length + k := Nat.mul_succ _ _
    rw [List.map_cons, List.map_cons, barredLength, barredLength, List.length_cons]
    omega

/-- If no word shrinks and one grows, the row grows. -/
theorem barredLength_map_lt {f g : α → String} {l : List α}
    (hle : ∀ a ∈ l, (f a).length ≤ (g a).length) {b : α} (hb : b ∈ l)
    (hlt : (f b).length < (g b).length) : barredLength (l.map f) < barredLength (l.map g) := by
  obtain ⟨before, after, rfl⟩ := List.append_of_mem hb
  clear hb
  induction before with
  | nil =>
    have hrest := barredLength_map_add_le (k := 0) (l := after) (f := f) (g := g)
      fun a ha => hle a (by simp [ha])
    rw [List.nil_append, List.map_cons, List.map_cons, barredLength, barredLength]
    omega
  | cons a before ih =>
    have hhead := hle a (by simp)
    have hrest := ih fun c hc => hle c (by simp only [List.cons_append, List.mem_cons, hc, or_true])
    rw [List.cons_append, List.map_cons, List.map_cons, barredLength, barredLength]
    omega

/-- So if two rows are equal and no word of the one is longer than its
counterpart in the other, the words are equally long. -/
theorem length_eq_of_row_eq {f g : α → String} {l : List α}
    (hle : ∀ a ∈ l, (f a).length ≤ (g a).length) (hrow : row (l.map f) = row (l.map g))
    {a : α} (ha : a ∈ l) : (f a).length = (g a).length := by
  have hne : l ≠ [] := List.ne_nil_of_mem ha
  have hleft : (row (l.map f)).length + 1 = _ := length_row (by simpa using hne)
  have hright : (row (l.map g)).length + 1 = _ := length_row (by simpa using hne)
  rw [hrow] at hleft
  refine Nat.le_antisymm (hle a ha) (Nat.le_of_not_lt fun hlt => ?_)
  have hlonger := barredLength_map_lt hle ha hlt
  omega

/-- Some of the words, in their order, make no longer a row. -/
theorem barredLength_le_of_sublist {some all : List String} (hsub : some.Sublist all) :
    barredLength some ≤ barredLength all := by
  induction hsub with
  | slnil => exact Nat.le_refl 0
  | cons w _ ih =>
    rw [barredLength]
    omega
  | cons_cons w _ ih =>
    rw [barredLength, barredLength]
    omega

/-- If they make as long a row, they are all the words. -/
theorem eq_of_sublist_of_barredLength_le {some all : List String} (hsub : some.Sublist all)
    (hle : barredLength all ≤ barredLength some) : some = all := by
  induction hsub with
  | slnil => rfl
  | cons w hrest _ =>
    have hshort := barredLength_le_of_sublist hrest
    rw [barredLength] at hle
    omega
  | cons_cons w _ ih =>
    rw [barredLength, barredLength] at hle
    rw [ih (by omega)]

/-- **Without its repetitions a row is shorter**, unless there are none. -/
theorem nodup_of_row_eraseDups {words : List String} (hrow : row words.eraseDups = row words) :
    words.Nodup := by
  by_cases hne : words = []
  · rw [hne]
    exact List.nodup_nil
  have hkept : words.eraseDups ≠ [] := mt Distinct.eraseDups_eq_nil_iff.1 hne
  have hall := length_row hne
  have hsome := length_row hkept
  rw [hrow] at hsome
  have hsame : words.eraseDups = words :=
    eq_of_sublist_of_barredLength_le (Distinct.eraseDups_sublist words) (by omega)
  rw [← hsame]
  exact Distinct.nodup_eraseDups words

end Text

end TypeScribe

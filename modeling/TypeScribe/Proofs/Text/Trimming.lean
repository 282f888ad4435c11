import Mathlib.Data.List.DropRight
import Mathlib.Data.List.TakeWhile
import TypeScribe.Text.Blank
/-!
# Trimmed text

To trim a text is to take blanks away at its two ends until there is none
left at either. `IsTrimmed` says so without a way to do it, and there is
one text that was trimmed off another (`isTrimmed_iff`). Blanks within the
text stay.
-/

namespace TypeScribe

namespace Text

/-- One text is another without the blanks at its two ends. -/
structure IsTrimmed (s t : String) : Prop where
  /-- Nothing but blanks was taken away, and only at the ends. -/
  around : ∃ front back, s.toList = front ++ t.toList ++ back ∧
    ∀ c ∈ front ++ back, isBlank c = true
  first : ∀ c ∈ t.toList.head?, isBlank c = false
  last : ∀ c ∈ t.toList.getLast?, isBlank c = false

variable {s t : String}

/-- A run is dropped up to the first character that is not of it. -/
theorem dropWhile_append_of_head? {p : Char → Bool} {front rest : List Char}
    (hfront : ∀ c ∈ front, p c = true) (hrest : ∀ c ∈ rest.head?, p c = false) :
    (front ++ rest).dropWhile p = rest := by
  rw [List.dropWhile_append_of_pos hfront]
  cases rest with
  | nil => rfl
  | cons c rest => rw [List.dropWhile_cons_of_neg (by simp [hrest c rfl])]

theorem toList_trim (s : String) :
    (trim s).toList = (s.toList.dropWhile isBlank).rdropWhile isBlank :=
  String.toList_ofList

/-- What is called trimming trims. -/
theorem isTrimmed_trim (s : String) : IsTrimmed s (trim s) := by
  refine ⟨⟨s.toList.takeWhile isBlank, (s.toList.dropWhile isBlank).rtakeWhile isBlank, ?_,
    fun c hc => ?_⟩, fun c hc => ?_, fun c hc => ?_⟩
  · rw [toList_trim, List.append_assoc, List.rdropWhile_append_rtakeWhile,
      List.takeWhile_append_dropWhile]
  · rcases List.mem_append.1 hc with hc | hc
    · exact List.mem_takeWhile_imp hc
    · exact List.mem_rtakeWhile_imp hc
  · obtain ⟨rest, hrest⟩ := List.head?_eq_some_iff.1 hc
    exact isBlank_head_trim hrest
  · rw [toList_trim] at hc
    obtain ⟨hne, rfl⟩ := List.mem_getLast?_eq_getLast hc
    exact eq_false_of_ne_true (List.rdropWhile_last_not isBlank _ hne)

/-- **There is one way to trim a text.** -/
theorem isTrimmed_iff : IsTrimmed s t ↔ t = trim s := by
  refine ⟨fun ⟨⟨front, back, hs, hblank⟩, hfirst, hlast⟩ => ?_, fun h => h ▸ isTrimmed_trim s⟩
  have hfront : ∀ c ∈ front, isBlank c = true := fun c hc => hblank c (by simp [hc])
  have hback : ∀ c ∈ back.reverse, isBlank c = true := fun c hc => hblank c (by simp_all)
  apply String.toList_inj.1
  rw [toList_trim, hs, List.append_assoc]
  cases htext : t.toList with
  | nil =>
    rw [List.nil_append, List.dropWhile_eq_nil_iff.2 hblank]
    rfl
  | cons c rest =>
    have hhead : ∀ d ∈ (c :: rest ++ back).head?, isBlank d = false := by
      rw [List.cons_append, List.head?_cons, ← List.head?_cons (l := rest), ← htext]
      exact hfirst
    have htail : ∀ d ∈ (c :: rest).reverse.head?, isBlank d = false := by
      rw [List.head?_reverse, ← htext]
      exact hlast
    rw [dropWhile_append_of_head? hfront hhead, List.rdropWhile, List.reverse_append,
      dropWhile_append_of_head? hback htail, List.reverse_reverse]

/-- What is no blank is not lost. -/
theorem mem_trim {c : Char} (hc : c ∈ s.toList) (hblank : isBlank c = false) :
    c ∈ (trim s).toList := by
  obtain ⟨front, back, hs, hblanks⟩ := (isTrimmed_trim s).around
  rw [hs, List.append_assoc, List.mem_append, List.mem_append] at hc
  rcases hc with hfront | htrim | hback
  · simp [hblanks c (by simp [hfront])] at hblank
  · exact htrim
  · simp [hblanks c (by simp [hback])] at hblank

/-- Where there are no blanks there is nothing to trim. -/
theorem trim_of_not_isBlank (h : ∀ c ∈ s.toList, isBlank c = false) : trim s = s := by
  refine (isTrimmed_iff.1 ⟨⟨[], [], by simp, by simp⟩, fun c hc => ?_, fun c hc => ?_⟩).symm
  · exact h c (List.mem_of_mem_head? hc)
  · exact h c (List.mem_of_getLast? hc)

/-- No range of blanks meets the digits. -/
theorem isBlank_of_isDigit {c : Char} (h : c.isDigit = true) : isBlank c = false := by
  have hapart : ∀ r ∈ blankRanges, r.2 < 48 ∨ 57 < r.1 := by decide
  obtain ⟨hzero, hnine⟩ : 48 ≤ c.toNat ∧ c.toNat ≤ 57 := Char.isDigit_iff_toNat.1 h
  rw [isBlank, List.any_eq_false]
  intro r hr hbetween
  rw [Bool.and_eq_true, decide_eq_true_eq, decide_eq_true_eq] at hbetween
  have := hapart r hr
  omega

end Text

end TypeScribe

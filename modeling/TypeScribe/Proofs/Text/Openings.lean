import TypeScribe.Proofs.Text.Row
import TypeScribe.Text.Segments
/-!
# How the alternatives of a text begin

`openings` lists the first characters of the alternatives that bars
separate in a text. Texts can be put in a row, or one directly behind the
other, and the openings of the result are read off those of the texts: a
row has the openings of all its words, and what is put behind a text
without empty alternatives only ever adds the openings that come after its
first bar.
-/

namespace TypeScribe

namespace Text

variable {s t : String} {words : List String}

/-- **Where two texts meet**, the last stretch of the one and the first of
the other become one. -/
theorem segments_append {sep : Char} {rest first : List Char} {more : List (List Char)}
    (text : List Char) (hrest : segments sep rest = first :: more) :
    ∃ before last, segments sep text = before ++ [last] ∧
      segments sep (text ++ rest) = before ++ (last ++ first) :: more := by
  induction text with
  | nil => exact ⟨[], [], rfl, hrest⟩
  | cons c text ih =>
    obtain ⟨before, last, htext, hboth⟩ := ih
    by_cases hc : c = sep
    · refine ⟨[] :: before, last, ?_, ?_⟩
      · rw [segments, if_pos hc, htext, List.cons_append]
      · rw [List.cons_append, segments, if_pos hc, hboth, List.cons_append]
    · rw [List.cons_append, segments, segments, if_neg hc, if_neg hc, htext, hboth]
      cases before with
      | nil => exact ⟨[], c :: last, rfl, rfl⟩
      | cons head before => exact ⟨(c :: head) :: before, last, rfl, rfl⟩

/-- Words that are not empty make an empty text only if there are none. -/
theorem intercalate_eq_empty_iff {sep : String} (hwords : ∀ w ∈ words, w ≠ "") :
    sep.intercalate words = "" ↔ words = [] := by
  constructor
  · intro hempty
    cases words with
    | nil => rfl
    | cons v words =>
      have hv := hwords v (by simp)
      cases words with
      | nil => exact absurd (String.intercalate_singleton.symm.trans hempty) hv
      | cons w words =>
        rw [String.intercalate_cons_cons, String.append_assoc] at hempty
        exact absurd (String.append_eq_empty_iff.1 hempty).1 hv
  · rintro rfl
    exact String.intercalate_nil

/-- The first characters of the alternatives in a text; none for an empty
alternative. The empty text has no alternatives. -/
def openings (s : String) : List (Option Char) :=
  if s = "" then [] else (segments '|' s.toList).map List.head?

@[simp] theorem openings_empty : openings "" = [] := if_pos rfl

theorem openings_of_ne_empty (hs : s ≠ "") :
    openings s = (segments '|' s.toList).map List.head? := if_neg hs

/-- Only the empty text has none. -/
theorem openings_eq_nil_iff : openings s = [] ↔ s = "" := by
  constructor
  · intro hnil
    by_contra hs
    rw [openings_of_ne_empty hs, List.map_eq_nil_iff] at hnil
    exact segments_ne_nil '|' s.toList hnil
  · rintro rfl
    exact openings_empty

/-- Whether an alternative is empty can be told by the openings. -/
theorem none_not_mem_openings_iff :
    none ∉ openings s ↔ s = "" ∨ ∀ part ∈ segments '|' s.toList, part ≠ [] := by
  by_cases hs : s = ""
  · simp [hs]
  · rw [openings_of_ne_empty hs, or_iff_right hs]
    constructor
    · rintro hfull part hpart rfl
      exact hfull (List.mem_map.2 ⟨[], hpart, rfl⟩)
    · intro hparts hnone
      obtain ⟨part, hpart, hhead⟩ := List.mem_map.1 hnone
      exact hparts part hpart (List.head?_eq_none_iff.1 hhead)

/-- A word is an alternative. -/
theorem openings_of_isWord (hs : IsWord s) : openings s = [s.toList.head?] := by
  rw [openings_of_ne_empty hs.ne_empty, segments_of_not_mem hs.bar_not_mem, List.map_singleton]

/-- A bar separates the openings. -/
theorem openings_append_bar (hs : s ≠ "") (ht : t ≠ "") :
    openings (s ++ "|" ++ t) = openings s ++ openings t := by
  have hboth : s ++ "|" ++ t ≠ "" := fun hempty =>
    ht (String.append_eq_empty_iff.1 hempty).2
  have hbar : segments '|' ('|' :: t.toList) = [] :: segments '|' t.toList := by
    rw [segments, if_pos rfl]
  obtain ⟨before, last, hleft, hmeet⟩ := segments_append s.toList hbar
  have hlist : (s ++ "|" ++ t).toList = s.toList ++ '|' :: t.toList := by
    rw [String.append_assoc, String.toList_append, String.toList_append]
    rfl
  rw [openings_of_ne_empty hs, openings_of_ne_empty ht, openings_of_ne_empty hboth, hlist, hmeet,
    hleft]
  simp

/-- **A row has the openings of all its words.** -/
theorem openings_row (hwords : ∀ w ∈ words, w ≠ "") :
    openings (row words) = words.flatMap openings := by
  induction words with
  | nil => exact openings_empty
  | cons v words ih =>
    have hrest := ih fun w hw => hwords w (by simp [hw])
    cases words with
    | nil => simp [row]
    | cons w words =>
      have hne : row (w :: words) ≠ "" :=
        mt (intercalate_eq_empty_iff fun u hu => hwords u (by simp [hu])).1 (by simp)
      rw [row, String.intercalate_cons_cons, openings_append_bar (hwords v (by simp)) hne, hrest]
      exact List.flatMap_cons.symm

/-- **What is put behind a text** leaves the openings of the text in place
and adds those behind its own first bar. -/
theorem openings_append (hs : s ≠ "") (hfull : none ∉ openings s) (t : String) :
    openings (s ++ t) = openings s ++ ((segments '|' t.toList).map List.head?).tail := by
  have hboth : s ++ t ≠ "" := fun hempty => hs (String.append_eq_empty_iff.1 hempty).1
  obtain ⟨first, more, ht⟩ := List.exists_cons_of_ne_nil (segments_ne_nil '|' t.toList)
  obtain ⟨before, last, hleft, hmeet⟩ := segments_append s.toList ht
  rw [openings_of_ne_empty hs, hleft] at hfull ⊢
  have hlast : last ≠ [] := by
    rintro rfl
    simp at hfull
  rw [openings_of_ne_empty hboth, String.toList_append, hmeet, ht]
  simp [List.head?_append_of_ne_nil _ hlast]

/-- If there is no bar in it, it adds nothing. -/
theorem openings_append_of_not_mem (hs : s ≠ "") (hfull : none ∉ openings s)
    (ht : '|' ∉ t.toList) : openings (s ++ t) = openings s := by
  rw [openings_append hs hfull, segments_of_not_mem ht, List.map_singleton, List.tail_cons,
    List.append_nil]

/-- Texts joined by anything but a bar have no openings but their own. -/
theorem mem_openings_joined {sep : String} {c : Option Char} (hsep : '|' ∉ sep.toList) (hs : s ≠ "")
    (hfull : none ∉ openings s) (hc : c ∈ openings (s ++ sep ++ t)) :
    c ∈ openings s ∨ c ∈ openings t := by
  have hleft : openings (s ++ sep) = openings s := openings_append_of_not_mem hs hfull hsep
  have hne : s ++ sep ≠ "" := fun hempty => hs (String.append_eq_empty_iff.1 hempty).1
  rw [openings_append hne (hleft ▸ hfull), hleft, List.mem_append] at hc
  refine hc.imp_right fun hc => ?_
  have ht : t ≠ "" := by
    rintro rfl
    exact absurd hc List.not_mem_nil
  rw [openings_of_ne_empty ht]
  exact List.mem_of_mem_tail hc

end Text

end TypeScribe

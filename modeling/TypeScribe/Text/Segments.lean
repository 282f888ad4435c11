/-!
# Cutting text at a separator

`segments sep` cuts a text at every occurrence of a character. There is
always at least one segment, and empty segments are kept, so joining the
segments with the separator gives the text back (`join_segments`) and no
segment holds the separator (`not_mem_of_mem_segments`). Words without the
separator can be joined and cut apart again (`segments_intercalate`), so
these are the segments of a text and no others (`segments_eq_iff`).
-/

namespace TypeScribe

namespace Text

/-- The stretches of `text` between the occurrences of `sep`. -/
def segments (sep : Char) : List Char → List (List Char)
  | [] => [[]]
  | c :: rest =>
    if c = sep then [] :: segments sep rest
    else (segments sep rest).modifyHead (c :: ·)

theorem segments_ne_nil (sep : Char) (text : List Char) : segments sep text ≠ [] := by
  induction text with
  | nil => simp [segments]
  | cons c rest ih =>
    by_cases h : c = sep
    · simp [segments, h]
    · simpa [segments, h, List.modifyHead_eq_nil_iff] using ih

/-- **No segment holds the separator.** -/
theorem not_mem_of_mem_segments {sep : Char} {text part : List Char}
    (h : part ∈ segments sep text) : sep ∉ part := by
  induction text generalizing part with
  | nil => simp_all [segments]
  | cons c rest ih =>
    by_cases hc : c = sep
    · simp only [segments, if_pos hc, List.mem_cons] at h
      rcases h with rfl | h
      · simp
      · exact ih h
    · simp only [segments, if_neg hc] at h
      match hs : segments sep rest with
      | [] => exact absurd hs (segments_ne_nil sep rest)
      | first :: more =>
        rw [hs, List.modifyHead_cons, List.mem_cons] at h
        rcases h with rfl | h
        · have hfirst : sep ∉ first := ih (by simp [hs])
          simp [hfirst, Ne.symm hc]
        · exact ih (by simp [hs, h])

/-- **Nothing is lost**: the segments joined by the separator are the text. -/
theorem join_segments (sep : Char) (text : List Char) :
    [sep].intercalate (segments sep text) = text := by
  induction text with
  | nil => simp [segments, List.intercalate]
  | cons c rest ih =>
    match hs : segments sep rest with
    | [] => exact absurd hs (segments_ne_nil sep rest)
    | first :: more =>
      rw [hs] at ih
      by_cases hc : c = sep
      · simpa [segments, hc, hs, List.intercalate] using ih
      · simp only [segments, if_neg hc, hs, List.modifyHead_cons]
        match more with
        | [] => simpa [List.intercalate] using ih
        | second :: more =>
          simpa [List.intercalate, List.intersperse] using ih

theorem segments_of_not_mem {sep : Char} {word : List Char} (hword : sep ∉ word) :
    segments sep word = [word] := by
  induction word with
  | nil => rfl
  | cons c word ih =>
    have hc : c ≠ sep := fun hc => hword (by simp [hc])
    have hrest : sep ∉ word := fun hmem => hword (by simp [hmem])
    rw [segments, if_neg hc, ih hrest, List.modifyHead_cons]

/-- A word is cut off at the first separator. -/
theorem segments_append_cons {sep : Char} {word : List Char} (hword : sep ∉ word)
    (rest : List Char) : segments sep (word ++ sep :: rest) = word :: segments sep rest := by
  induction word with
  | nil => rw [List.nil_append, segments, if_pos rfl]
  | cons c word ih =>
    have hc : c ≠ sep := fun hc => hword (by simp [hc])
    have hrest : sep ∉ word := fun hmem => hword (by simp [hmem])
    rw [List.cons_append, segments, if_neg hc, ih hrest, List.modifyHead_cons]

/-- **Joined words are the segments of the text.** -/
theorem segments_intercalate {sep : Char} {words : List (List Char)} (hne : words ≠ [])
    (hwords : ∀ w ∈ words, sep ∉ w) : segments sep ([sep].intercalate words) = words := by
  induction words with
  | nil => exact absurd rfl hne
  | cons w words ih =>
    have hw : sep ∉ w := hwords w (by simp)
    cases words with
    | nil => rw [List.intercalate_singleton, segments_of_not_mem hw]
    | cons v words =>
      have hrest := ih (by simp) fun u hu => hwords u (by simp [hu])
      rw [List.intercalate_cons_cons, List.append_assoc, List.singleton_append,
        segments_append_cons hw, hrest]

/-- **What a text is cut into** are the words, none with the separator,
that make the text when they are joined. -/
theorem segments_eq_iff {sep : Char} {text : List Char} {words : List (List Char)} :
    segments sep text = words ↔
      words ≠ [] ∧ (∀ w ∈ words, sep ∉ w) ∧ [sep].intercalate words = text := by
  constructor
  · rintro rfl
    exact ⟨segments_ne_nil sep text, fun w => not_mem_of_mem_segments, join_segments sep text⟩
  · rintro ⟨hne, hwords, rfl⟩
    exact segments_intercalate hne hwords

end Text

end TypeScribe

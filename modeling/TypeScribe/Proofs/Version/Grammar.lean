import TypeScribe.Proofs.Text.Numeral
import TypeScribe.Proofs.Text.Trimming
import TypeScribe.Proofs.Version.Words
/-!
# What is a version

A text denotes a version in one of two ways: as a number from 10000 on, or
in two or three parts with dots between them (`Denotes`). The texts that
are read are those that denote a version once they are trimmed, and all
others are refused under the name they have then (`read_grammar`). Too
many parts, an empty part, a sign without digits, a minor of three digits
and a number that does not fit a word are all refused alike, wherever the
reading stops.

Read in words, part by part, a version comes out the same. The bound on
minor and patch is tested before anything is reckoned, and that is why
none of the steps that are trusted can leave the words
(`readInWords_eq`).
-/

namespace TypeScribe

namespace Version

open Text (IsNumeral wordBound)

variable {text : List Char} {id major minor patch : Nat} {v : Version}

/-! ## The grammar -/

/-- A text of two or three parts with dots between them. Minor and patch
have two digits, and a patch that is missing is zero. -/
inductive HasParts : List Char → Nat → Nat → Nat → Prop
  | two {a b : List Char} {major minor : Nat} : IsNumeral a major → IsNumeral b minor →
      minor ≤ 99 → HasParts (a ++ '.' :: b) major minor 0
  | three {a b c : List Char} {major minor patch : Nat} : IsNumeral a major → IsNumeral b minor →
      IsNumeral c patch → minor ≤ 99 → patch ≤ 99 →
      HasParts (a ++ '.' :: (b ++ '.' :: c)) major minor patch

/-- A text denotes the version of a number. -/
inductive Denotes (text : List Char) : Nat → Prop
  | number {id : Nat} : IsNumeral text id → 10000 ≤ id → Denotes text id
  | parts {major minor patch : Nat} : HasParts text major minor patch →
      major * 10000 + minor * 100 + patch < wordBound →
      Denotes text (major * 10000 + minor * 100 + patch)

/-- There are no dots in a numeral. -/
theorem dot_not_mem (h : IsNumeral text id) : '.' ∉ text := by
  intro hdot
  rcases h.mem hdot with hsign | hdigit
  · exact absurd hsign (by decide)
  · exact absurd hdigit (by decide)

/-- Nor are there blanks. -/
theorem isBlank_of_isNumeral (h : IsNumeral text id) : ∀ c ∈ text, Text.isBlank c = false := by
  intro c hc
  rcases h.mem hc with rfl | hdigit
  · decide
  · exact Text.isBlank_of_isDigit hdigit

theorem segments_of_isNumeral (h : IsNumeral text id) : Text.segments '.' text = [text] :=
  Text.segments_of_not_mem (dot_not_mem h)

/-- A numeral before a dot is the first segment. -/
theorem segments_of_isNumeral_append (h : IsNumeral text id) (rest : List Char) :
    Text.segments '.' (text ++ '.' :: rest) = text :: Text.segments '.' rest :=
  Text.segments_append_cons (dot_not_mem h) rest

theorem ofText?_of_hasParts (h : HasParts text major minor patch) :
    ofText? text = ofParts? major minor patch := by
  cases h with
  | two ha hb hminor =>
    rw [ofText?, segments_of_isNumeral_append ha, segments_of_isNumeral hb]
    simp [Text.numeral?_eq_some_iff.2 ha, Text.numeral?_eq_some_iff.2 hb]
  | three ha hb hc hminor hpatch =>
    rw [ofText?, segments_of_isNumeral_append ha, segments_of_isNumeral_append hb,
      segments_of_isNumeral hc]
    simp [Text.numeral?_eq_some_iff.2 ha, Text.numeral?_eq_some_iff.2 hb,
      Text.numeral?_eq_some_iff.2 hc]

theorem HasParts.le (h : HasParts text major minor patch) : minor ≤ 99 ∧ patch ≤ 99 := by
  cases h with
  | two _ _ hminor => exact ⟨hminor, by decide⟩
  | three _ _ _ hminor hpatch => exact ⟨hminor, hpatch⟩

/-- There are no blanks around the dots either. -/
theorem HasParts.isBlank (h : HasParts text major minor patch) :
    ∀ c ∈ text, Text.isBlank c = false := by
  have hdot : Text.isBlank '.' = false := by decide
  cases h with
  | two ha hb _ =>
    simpa [or_imp, forall_and, hdot] using ⟨isBlank_of_isNumeral ha, isBlank_of_isNumeral hb⟩
  | three ha hb hc _ _ =>
    simpa [or_imp, forall_and, hdot] using
      ⟨isBlank_of_isNumeral ha, isBlank_of_isNumeral hb, isBlank_of_isNumeral hc⟩

/-- What is read denotes what it is read as. -/
theorem denotes_of_ofText? (h : ofText? text = some v) : Denotes text v.id := by
  rw [ofText?] at h
  split at h
  · rename_i number hcut
    obtain ⟨-, -, rfl⟩ := Text.segments_eq_iff.1 hcut
    obtain ⟨id, hnumeral, h⟩ := Option.bind_eq_some_iff.1 h
    obtain ⟨hmin, h⟩ := Option.ite_none_right_eq_some.1 h
    rw [List.intercalate_singleton, ofId?_eq_some_iff.1 h]
    exact .number (Text.numeral?_eq_some_iff.1 hnumeral) hmin
  · rename_i a b hcut
    obtain ⟨-, -, rfl⟩ := Text.segments_eq_iff.1 hcut
    obtain ⟨major, ha, h⟩ := Option.bind_eq_some_iff.1 h
    obtain ⟨minor, hb, h⟩ := Option.bind_eq_some_iff.1 h
    obtain ⟨hminor, -, hid⟩ := ofParts?_eq_some_iff.1 h
    have hparts : HasParts (a ++ '.' :: b) major minor 0 :=
      .two (Text.numeral?_eq_some_iff.1 ha) (Text.numeral?_eq_some_iff.1 hb) hminor
    have htext : ['.'].intercalate [a, b] = a ++ '.' :: b := by simp
    rw [htext, hid]
    exact .parts hparts (hid ▸ v.id_lt)
  · rename_i a b c hcut
    obtain ⟨-, -, rfl⟩ := Text.segments_eq_iff.1 hcut
    obtain ⟨major, ha, h⟩ := Option.bind_eq_some_iff.1 h
    obtain ⟨minor, hb, h⟩ := Option.bind_eq_some_iff.1 h
    obtain ⟨patch, hc, h⟩ := Option.bind_eq_some_iff.1 h
    obtain ⟨hminor, hpatch, hid⟩ := ofParts?_eq_some_iff.1 h
    have hparts : HasParts (a ++ '.' :: (b ++ '.' :: c)) major minor patch :=
      .three (Text.numeral?_eq_some_iff.1 ha) (Text.numeral?_eq_some_iff.1 hb)
        (Text.numeral?_eq_some_iff.1 hc) hminor hpatch
    have htext : ['.'].intercalate [a, b, c] = a ++ '.' :: (b ++ '.' :: c) := by simp
    rw [htext, hid]
    exact .parts hparts (hid ▸ v.id_lt)
  · cases h

/-- **The texts of versions are those that denote one.** -/
theorem ofText?_eq_some_iff : ofText? text = some v ↔ Denotes text v.id := by
  refine ⟨denotes_of_ofText?, fun h => ?_⟩
  generalize hid : v.id = id at h
  cases h with
  | number hnumeral hmin =>
    rw [ofText?, segments_of_isNumeral hnumeral]
    simp [Text.numeral?_eq_some_iff.2 hnumeral, hmin, ofId?_eq_some_iff, hid]
  | parts hparts hlt =>
    rw [ofText?_of_hasParts hparts, ofParts?_eq_some_iff]
    exact ⟨hparts.le.1, hparts.le.2, hid⟩

theorem Denotes.lt (h : Denotes text id) : id < wordBound := by
  cases h with
  | number hnumeral _ => exact hnumeral.lt
  | parts _ hlt => exact hlt

/-- **Which texts are versions.** Of every text the blanks at its ends are
taken away first. What is left is read as a version if and only if it
denotes one, and is refused under its own name if it denotes none. Read
in words, the text gives the same version or the same refusal, and no
step of the reckoning leaves the words unchecked. -/
theorem read_grammar (s : String) :
    Text.IsTrimmed s (Text.trim s) ∧
    (∀ id, (∃ v, read s = .ok v ∧ v.id = id) ↔ Denotes (Text.trim s).toList id) ∧
    (∀ e, read s = .error e ↔
      (∀ id, ¬ Denotes (Text.trim s).toList id) ∧ e.given = Text.trim s) ∧
    readInWords s = ((read s).map word).mapError .refused ∧
    readInWords s ≠ .error .overflow := by
  refine ⟨Text.isTrimmed_trim s, fun id => ?_, fun e => ?_, readInWords_eq s, ?_⟩
  · constructor
    · rintro ⟨v, hv, rfl⟩
      exact ofText?_eq_some_iff.1 (read_eq_ok_iff.1 hv)
    · intro h
      exact ⟨⟨id, h.lt⟩, read_eq_ok_iff.2 (ofText?_eq_some_iff.2 h), rfl⟩
  · rw [read_eq_error_iff, Option.eq_none_iff_forall_ne_some]
    refine and_congr ⟨fun h id hid => ?_, fun h v hv => h v.id (ofText?_eq_some_iff.1 hv)⟩ ?_
    · exact h ⟨id, hid.lt⟩ (ofText?_eq_some_iff.2 hid)
    · exact ⟨fun h => by rw [h], fun h => by rw [← h]⟩
  · rw [readInWords_eq]
    cases read s <;> simp [Except.map, Except.mapError]

end Version

end TypeScribe

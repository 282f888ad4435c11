import TypeScribe.Proofs.Version.Grammar
import TypeScribe.Version.Feature
/-!
# Versions that were written

The number of a version, and its three parts in digits, are each read as
the version they were written for (`read_toString_id`, `read_fullText`).
A version is shown without its patch, so what is read from its text is the
version with the patch dropped (`read_text`), on all of the numbers a word
can hold. Nothing that hints depend on is lost with the patch
(`has_withoutPatch`).
-/

namespace TypeScribe

namespace Version

open Text (IsNumeral)

variable {s : String} {v : Version} {a b c : Nat}

/-- The version `major.minor.0`. -/
def withoutPatch (v : Version) : Version :=
  ⟨v.id / 100 * 100, Nat.lt_of_le_of_lt (Nat.div_mul_le_self v.id 100) v.id_lt⟩

/-- **Every form of hint came with a minor version.** -/
theorem has_withoutPatch (v : Version) (f : Feature) : v.withoutPatch.has f = v.has f := by
  refine has_congr ?_ ?_ f <;> simp only [major, minor, withoutPatch] <;> omega

/-! ## Text without blanks -/

/-- What has parts is read as the version of those parts. -/
theorem read_of_hasParts (h : HasParts s.toList a b c) (hid : v.id = a * 10000 + b * 100 + c) :
    read s = .ok v := by
  rw [read_eq_ok_iff, Text.trim_of_not_isBlank h.isBlank, ofText?_eq_some_iff, hid]
  exact .parts h (hid ▸ v.id_lt)

theorem read_of_isNumeral (h : IsNumeral s.toList v.id) (hmin : 10000 ≤ v.id) :
    read s = .ok v := by
  rw [read_eq_ok_iff, Text.trim_of_not_isBlank (isBlank_of_isNumeral h), ofText?_eq_some_iff]
  exact .number h hmin

/-! ## Text and back -/

theorem isNumeral_major (v : Version) : IsNumeral (Nat.toDigits 10 v.major) v.major :=
  Text.isNumeral_toDigits (Nat.lt_of_le_of_lt v.major_le v.id_lt)

theorem isNumeral_of_lt {n : Nat} (h : n < 100) : IsNumeral (Nat.toDigits 10 n) n :=
  Text.isNumeral_toDigits (Nat.lt_trans h (by decide))

/-- **The number of a version is read back**, unless it is too small to be
one. -/
theorem read_toString_id (hmin : 10000 ≤ v.id) : read (toString v.id) = .ok v := by
  refine read_of_isNumeral ?_ hmin
  rw [Nat.toString_eq_repr, Nat.toList_repr]
  exact Text.isNumeral_toDigits v.id_lt

/-- A version with its patch. -/
def fullText (v : Version) : String :=
  toString v.major ++ "." ++ toString v.minor ++ "." ++ toString v.patch

theorem hasParts_fullText (v : Version) :
    HasParts v.fullText.toList v.major v.minor v.patch := by
  have htext : v.fullText.toList = Nat.toDigits 10 v.major ++
      '.' :: (Nat.toDigits 10 v.minor ++ '.' :: Nat.toDigits 10 v.patch) := by
    simp [fullText, Nat.toString_eq_repr, Nat.toList_repr]
  rw [htext]
  exact .three v.isNumeral_major (isNumeral_of_lt v.minor_lt) (isNumeral_of_lt v.patch_lt)
    (Nat.le_of_lt_succ v.minor_lt) (Nat.le_of_lt_succ v.patch_lt)

/-- **A version with its patch is read back.** -/
theorem read_fullText (v : Version) : read v.fullText = .ok v :=
  read_of_hasParts v.hasParts_fullText v.id_eq

theorem hasParts_text (v : Version) : HasParts v.text.toList v.major v.minor 0 := by
  have htext : v.text.toList = Nat.toDigits 10 v.major ++ '.' :: Nat.toDigits 10 v.minor := by
    simp [text, Nat.toString_eq_repr, Nat.toList_repr]
  rw [htext]
  exact .two v.isNumeral_major (isNumeral_of_lt v.minor_lt) (Nat.le_of_lt_succ v.minor_lt)

/-- **What is read from the text of a version** is the version without its
patch. -/
theorem read_text (v : Version) : read v.text = .ok v.withoutPatch := by
  refine read_of_hasParts v.hasParts_text ?_
  simp only [major, minor, withoutPatch]
  omega

end Version

end TypeScribe

import TypeScribe.Version.Words
/-!
# Words suffice

A version that is read part by part in words of 32 bits is the version
that is read with numbers of any size (`readInWords_eq`). Minor and patch
are tested before anything is reckoned with them, so together they stay
below 10000, and the steps that are trusted to fit a word do. The steps
that are checked are those in which the major part has a share.
-/

namespace TypeScribe

namespace Version

open Text (wordBound)

/-- The version's number as a word. -/
def word (v : Version) : UInt32 := UInt32.ofNat v.id

namespace Words

variable {α β : Type} {n : Nat} {refused fault : WordFault} {text : List Char}

theorem toNat_ofNat (h : n < wordBound) : (UInt32.ofNat n).toNat = n :=
  UInt32.toNat_ofNat_of_lt' h

theorem ofNat_lt_iff {bound : UInt32} (h : n < wordBound) :
    UInt32.ofNat n < bound ↔ n < bound.toNat := by
  rw [UInt32.lt_iff_toNat_lt, toNat_ofNat h]

theorem lt_ofNat_iff {bound : UInt32} (h : n < wordBound) :
    bound < UInt32.ofNat n ↔ bound.toNat < n := by
  rw [UInt32.lt_iff_toNat_lt, toNat_ofNat h]

theorem word?_of_lt (h : n < wordBound) : word? n = some (UInt32.ofNat n) := if_pos h

theorem word?_of_le (h : wordBound ≤ n) : word? n = none := if_neg (Nat.not_lt.2 h)

theorem ok_bind (a : α) (f : α → Except WordFault β) : (Except.ok a >>= f) = f a := rfl

theorem error_bind (fault : WordFault) (f : α → Except WordFault β) :
    (Except.error fault >>= f) = .error fault := rfl

theorem expect_none : expect fault (none : Option α) = .error fault := rfl

theorem expect_some_bind (a : α) (f : α → Except WordFault β) :
    (expect fault (some a) >>= f) = f a := rfl

theorem expect_none_bind (f : α → Except WordFault β) :
    (expect fault none >>= f) = .error fault := rfl

/-! ## Reckoning -/

/-- **What is trusted stays in the words**, and what is checked decides. -/
theorem assemble_eq {major minor patch : UInt32} (hminor : minor.toNat ≤ 99)
    (hpatch : patch.toNat ≤ 99) : assemble refused major minor patch =
      expect refused (word? (major.toNat * 10000 + minor.toNat * 100 + patch.toNat)) := by
  have hmiddle : minor.toNat * 100 < wordBound := by
    simp only [wordBound]
    omega
  have hlow : minor.toNat * 100 + patch.toNat < wordBound := by
    simp only [wordBound]
    omega
  have hproduct : product? minor 100 = some (UInt32.ofNat (minor.toNat * 100)) :=
    word?_of_lt hmiddle
  have hsum : sum? (UInt32.ofNat (minor.toNat * 100)) patch =
      some (UInt32.ofNat (minor.toNat * 100 + patch.toNat)) := by
    rw [sum?, toNat_ofNat hmiddle, word?_of_lt hlow]
  have hmajor : product? major 10000 = word? (major.toNat * 10000) := rfl
  rcases Nat.lt_or_ge (major.toNat * 10000) wordBound with hhigh | hhigh
  · rw [assemble, hmajor, word?_of_lt hhigh, expect_some_bind, hproduct, expect_some_bind, hsum,
      expect_some_bind, sum?, toNat_ofNat hhigh, toNat_ofNat hlow, Nat.add_assoc]
  · have hid : wordBound ≤ major.toNat * 10000 + minor.toNat * 100 + patch.toNat := by
      refine Nat.le_trans hhigh ?_
      rw [Nat.add_assoc]
      exact Nat.le_add_right ..
    rw [assemble, hmajor, word?_of_le hhigh, expect_none_bind, word?_of_le hid, expect_none]

/-- A number that fits is a version, and its word is the number's. -/
theorem map_word_ofId? (n : Nat) : (ofId? n).map word = word? n := by
  rcases Nat.lt_or_ge n wordBound with h | h
  · rw [ofId?, dif_pos h, word?_of_lt h]
    rfl
  · rw [ofId?, dif_neg (Nat.not_lt.2 h), word?_of_le h]
    rfl

/-! ## Reading -/

theorem ofNumber_eq (text : List Char) : ofNumber refused text =
    expect refused (((Text.numeral? text).bind fun id =>
      if 10000 ≤ id then ofId? id else none).map word) := by
  cases hid : Text.numeral? text with
  | none => rw [ofNumber, numeral, hid, Option.map_none, expect_none_bind, Option.bind_none,
      Option.map_none, expect_none]
  | some id =>
    have hlt := Text.numeral?_lt hid
    have hmin : UInt32.ofNat id < 10000 ↔ id < 10000 := ofNat_lt_iff hlt
    rw [ofNumber, numeral, hid, Option.map_some, expect_some_bind, Option.bind_some]
    rcases Nat.lt_or_ge id 10000 with h | h
    · rw [if_pos (hmin.2 h), if_neg (Nat.not_le.2 h), Option.map_none]
      rfl
    · rw [if_neg (mt hmin.1 (Nat.not_lt.2 h)), if_pos h, map_word_ofId?, word?_of_lt hlt]
      rfl

theorem next_of_some {part : List Char} {parts : List (List Char)}
    (h : Text.numeral? part = some n) :
    next refused (part :: parts) = .ok (UInt32.ofNat n, parts) := by
  rw [next, numeral, h, Option.map_some, expect_some_bind]
  rfl

theorem next_of_none {part : List Char} {parts : List (List Char)}
    (h : Text.numeral? part = none) : next refused (part :: parts) = .error refused := by
  rw [next, numeral, h, Option.map_none, expect_none_bind]

/-- Parts that are numbers make the version of those numbers. -/
theorem assembleAll_nil {major minor patch : Nat} (hmajor : major < wordBound)
    (hminor : minor < wordBound) (hpatch : patch < wordBound) :
    assembleAll refused (UInt32.ofNat major) (UInt32.ofNat minor) (UInt32.ofNat patch) [] =
      expect refused ((Version.ofParts? major minor patch).map word) := by
  have hminor99 : 99 < UInt32.ofNat minor ↔ 99 < minor := lt_ofNat_iff hminor
  have hpatch99 : 99 < UInt32.ofNat patch ↔ 99 < patch := lt_ofNat_iff hpatch
  simp only [assembleAll, hminor99, hpatch99, ne_eq, not_true_eq_false, or_false]
  by_cases h : 99 < minor ∨ 99 < patch
  · have hnot : ¬ (minor ≤ 99 ∧ patch ≤ 99) := by omega
    rw [if_pos h, Version.ofParts?, if_neg hnot, Option.map_none, expect_none]
  · have hboth : minor ≤ 99 ∧ patch ≤ 99 := by omega
    rw [if_neg h, Version.ofParts?, if_pos hboth, map_word_ofId?, assemble_eq, toNat_ofNat hmajor,
      toNat_ofNat hminor, toNat_ofNat hpatch]
    · rw [toNat_ofNat hminor]
      exact hboth.1
    · rw [toNat_ofNat hpatch]
      exact hboth.2

theorem assembleAll_cons (major minor patch : UInt32) (part : List Char) (left : List (List Char)) :
    assembleAll refused major minor patch (part :: left) = .error refused :=
  if_pos (.inr (.inr (List.cons_ne_nil part left)))

theorem ofParts_eq (a b : List Char) (rest : List (List Char)) :
    ofParts refused (a :: b :: rest) = expect refused (Option.map word (match rest with
      | [] => do ofParts? (← Text.numeral? a) (← Text.numeral? b) 0
      | [c] => do ofParts? (← Text.numeral? a) (← Text.numeral? b) (← Text.numeral? c)
      | _ => none)) := by
  cases ha : Text.numeral? a with
  | none =>
    rw [ofParts, next_of_none ha, error_bind]
    split <;> rfl
  | some major =>
    have hmajor := Text.numeral?_lt ha
    cases hb : Text.numeral? b with
    | none =>
      simp only [ofParts, next_of_some ha, ok_bind, next_of_none hb, error_bind]
      split <;> rfl
    | some minor =>
      have hminor := Text.numeral?_lt hb
      simp only [ofParts, next_of_some ha, next_of_some hb, ok_bind]
      cases rest with
      | nil => exact assembleAll_nil hmajor hminor (by decide)
      | cons c left =>
        cases hc : Text.numeral? c with
        | none =>
          rw [next_of_none hc, error_bind]
          cases left with
          | nil =>
            simp only [hc]
            rfl
          | cons d left => rfl
        | some patch =>
          simp only [next_of_some hc, ok_bind]
          cases left with
          | nil =>
            simp only [hc]
            exact assembleAll_nil hmajor hminor (Text.numeral?_lt hc)
          | cons d left => exact assembleAll_cons ..

end Words

/-- **Words suffice.** A version read in words is the version that is read,
and what is refused is refused in words. -/
theorem readInWords_eq (s : String) :
    readInWords s = ((read s).map word).mapError .refused := by
  have hread : ((read s).map word).mapError WordFault.refused =
      Words.expect (.refused ⟨Text.trim s⟩) ((ofText? (Text.trim s).toList).map word) := by
    rw [read]
    cases ofText? (Text.trim s).toList <;> rfl
  rw [hread, readInWords]
  split
  · rename_i hdot
    rw [ofText?]
    cases hcut : Text.segments '.' (Text.trim s).toList with
    | nil => exact absurd hcut (Text.segments_ne_nil _ _)
    | cons a parts =>
      cases parts with
      | nil =>
        -- a text with a dot is more than one part
        obtain ⟨-, ha, htext⟩ := Text.segments_eq_iff.1 hcut
        rw [List.intercalate_singleton] at htext
        exact absurd hdot (htext ▸ ha a List.mem_cons_self)
      | cons b rest =>
        rw [Words.ofParts_eq]
        rcases rest with _ | ⟨c, _ | ⟨d, rest⟩⟩ <;> rfl
  · rename_i hdot
    rw [Words.ofNumber_eq, ofText?, Text.segments_of_not_mem hdot]
    rfl

end Version

end TypeScribe

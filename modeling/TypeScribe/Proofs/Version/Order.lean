import TypeScribe.Proofs.Version.Reading
/-!
# The order of versions

A version has two written forms that say all of it, its number and its
three parts, and each is read back as the version. A third form, the one
that is shown, leaves the patch out. The number is the parts in positions
of two digits, since minor and patch have no more, and so versions are
ordered as their parts are, the major part first (`compare_eq`). For two
texts in parts this can be seen from the parts that are written
(`forms_and_order`).
-/

namespace TypeScribe

namespace Version

variable {s t : String} {v w : Version} {major minor patch : Nat}

/-! ## Parts in order -/

/-- Numbers in two positions are ordered by the higher one first. -/
theorem compare_positions {base high low high' low' : Nat} (hlow : low < base)
    (hlow' : low' < base) : compare (high * base + low) (high' * base + low') =
      (compare high high').then (compare low low') := by
  rcases Nat.lt_trichotomy high high' with hlt | rfl | hgt
  · have hbelow : (high + 1) * base ≤ high' * base := Nat.mul_le_mul_right base hlt
    rw [Nat.add_one_mul] at hbelow
    have hid : high * base + low < high' * base + low' := by omega
    rw [Nat.compare_eq_lt.2 hlt, Nat.compare_eq_lt.2 hid]
    rfl
  · rw [Nat.compare_eq_eq.2 (rfl : high = high), Ordering.eq_then, Nat.compare_eq_ite_lt,
      Nat.compare_eq_ite_lt]
    simp
  · have hbelow : (high' + 1) * base ≤ high * base := Nat.mul_le_mul_right base hgt
    rw [Nat.add_one_mul] at hbelow
    have hid : high' * base + low' < high * base + low := by omega
    rw [Nat.compare_eq_gt.2 hgt, Nat.compare_eq_gt.2 hid]
    rfl

/-- **Versions are ordered as their parts are.** -/
theorem compare_eq (v w : Version) : compare v w =
    (compare v.major w.major).then ((compare v.minor w.minor).then (compare v.patch w.patch)) := by
  have hlow : ∀ u : Version, u.minor * 100 + u.patch < 10000 := by
    intro u
    have hminor := u.minor_lt
    have hpatch := u.patch_lt
    omega
  change compare v.id w.id = _
  rw [v.id_eq, w.id_eq, Nat.add_assoc, Nat.add_assoc, compare_positions (hlow v) (hlow w),
    compare_positions v.patch_lt w.patch_lt]

/-! ## Parts as they are written -/

/-- The parts of a text that is read are the version's. -/
theorem parts_of_read (hread : read s = .ok v)
    (hparts : HasParts (Text.trim s).toList major minor patch) :
    v.major = major ∧ v.minor = minor ∧ v.patch = patch := by
  rw [read_eq_ok_iff, ofText?_of_hasParts hparts] at hread
  exact parts_of_ofParts? hread

/-- **A text in parts says the version's parts**, and only those. -/
theorem hasParts_iff (hread : read s = .ok v) (hdot : '.' ∈ s.toList) :
    HasParts (Text.trim s).toList major minor patch ↔
      v.major = major ∧ v.minor = minor ∧ v.patch = patch := by
  refine ⟨parts_of_read hread, ?_⟩
  rintro ⟨rfl, rfl, rfl⟩
  have hdenotes : Denotes (Text.trim s).toList v.id :=
    ofText?_eq_some_iff.1 (read_eq_ok_iff.1 hread)
  generalize hid : v.id = id at hdenotes
  cases hdenotes with
  | number hnumeral _ => exact absurd (Text.mem_trim hdot (by decide)) (dot_not_mem hnumeral)
  | parts hparts _ =>
    obtain ⟨hmajor, hminor, hpatch⟩ := parts_of_read hread hparts
    rwa [hmajor, hminor, hpatch]

/-- **The forms of a version and the order of versions.** The number of a
version, from 10000 on, and its three parts are each read as the version,
and what is shown of it as the version without its patch. What is read
from a text in parts has the parts that are written, and two such texts
are ordered as their parts are, the major part first. -/
theorem forms_and_order :
    (∀ v : Version, 10000 ≤ v.id →
      read (toString v.id) = .ok v ∧
      read (toString (v.id / 10000) ++ "." ++ toString (v.id / 100 % 100) ++ "." ++
        toString (v.id % 100)) = .ok v) ∧
    (∀ v : Version, ∃ w, read v.text = .ok w ∧ w.id = v.id / 100 * 100) ∧
    (∀ s v, read s = .ok v → '.' ∈ s.toList → ∀ a b c,
      HasParts (Text.trim s).toList a b c ↔ v.major = a ∧ v.minor = b ∧ v.patch = c) ∧
    ∀ s t v w, read s = .ok v → read t = .ok w → ∀ a b c a' b' c',
      HasParts (Text.trim s).toList a b c → HasParts (Text.trim t).toList a' b' c' →
      compare v w = (compare a a').then ((compare b b').then (compare c c')) ∧
      (v ≤ w ↔ (compare v w).isLE = true) := by
  refine ⟨fun v hmin => ⟨read_toString_id hmin, read_fullText v⟩,
    fun v => ⟨v.withoutPatch, read_text v, rfl⟩,
    fun s v hread hdot a b c => hasParts_iff hread hdot, ?_⟩
  intro s t v w hv hw a b c a' b' c' hs ht
  obtain ⟨rfl, rfl, rfl⟩ := parts_of_read hv hs
  obtain ⟨rfl, rfl, rfl⟩ := parts_of_read hw ht
  exact ⟨compare_eq v w, Nat.isLE_compare.symm⟩

/-- The greatest number there is, and two texts of which the one with
blanks around it is the lesser. -/
theorem forms_and_order_greatest :
    read "4294967295" = .ok ⟨4294967295, by decide⟩ ∧
      read "429496.72.95" = .ok ⟨4294967295, by decide⟩ ∧
      (∃ w, read "429496.72" = .ok w ∧ w.id = 4294967200) ∧
      ∃ v w, read " 7.4 " = .ok v ∧ read "7.4.33" = .ok w ∧ compare v w = .lt := by
  obtain ⟨hforms, hshown, hparts, horder⟩ := forms_and_order
  have hseven : read " 7.4 " = .ok ⟨70400, by decide⟩ := by decide
  have hpatch : read "7.4.33" = .ok ⟨70433, by decide⟩ := by decide
  have hlt := (horder _ _ _ _ hseven hpatch 7 4 0 7 4 33
    ((hparts _ _ hseven (by decide) 7 4 0).2 (by decide))
    ((hparts _ _ hpatch (by decide) 7 4 33).2 (by decide))).1
  obtain ⟨hnumber, hwhole⟩ := hforms ⟨4294967295, by decide⟩ (by decide)
  obtain ⟨w, hread, hw⟩ := hshown ⟨4294967295, by decide⟩
  rw [show toString 4294967295 = "4294967295" by decide] at hnumber
  rw [show toString (4294967295 / 10000) ++ "." ++ toString (4294967295 / 100 % 100) ++ "." ++
    toString (4294967295 % 100) = "429496.72.95" by decide] at hwhole
  exact ⟨hnumber, hwhole, ⟨w, hread, hw⟩, _, _, hseven, hpatch, hlt⟩

end Version

end TypeScribe

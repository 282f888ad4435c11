import TypeScribe.Text.Numeral
/-!
# Versions of the target language

A version is one number, `major * 10000 + minor * 100 + patch`, in one
machine word. Versions are ordered as their numbers are, and a version is
shown without its patch, so that `7.4.33` and `7.4.0` are shown alike.
-/

namespace TypeScribe

/-- A version of the target language. -/
structure Version where
  /-- `major * 10000 + minor * 100 + patch`. -/
  id : Nat
  /-- The number fits a machine word. -/
  id_lt : id < Text.wordBound
deriving DecidableEq, Repr

namespace Version

/-- The version with a given number, if the number fits a word. -/
def ofId? (id : Nat) : Option Version :=
  if h : id < Text.wordBound then some ⟨id, h⟩ else none

/-- The version `major.minor.patch`. Minor and patch have two digits. -/
def ofParts? (major minor patch : Nat) : Option Version :=
  if minor ≤ 99 ∧ patch ≤ 99 then ofId? (major * 10000 + minor * 100 + patch) else none

/-- The number a bare pair stands for; a minor of three digits carries
over into the major. -/
def ofPair? (major minor : Nat) : Option Version :=
  ofId? (major * 10000 + minor * 100)

/-- The newest version known here, which is also the default. -/
def latest : Version := ⟨80400, by decide⟩

instance : Inhabited Version := ⟨latest⟩

/-- The leading part. -/
def major (v : Version) : Nat := v.id / 10000

/-- The middle part. -/
def minor (v : Version) : Nat := v.id / 100 % 100

/-- The last part. -/
def patch (v : Version) : Nat := v.id % 100

instance : Ord Version := ⟨fun v w => compare v.id w.id⟩

instance : LE Version := ⟨fun v w => v.id ≤ w.id⟩

instance (v w : Version) : Decidable (v ≤ w) := inferInstanceAs (Decidable (v.id ≤ w.id))

/-- A version as it is shown: major and minor part. -/
def text (v : Version) : String :=
  toString v.major ++ "." ++ toString v.minor

/-! ## Parts and number -/

@[ext] theorem ext {v w : Version} (h : v.id = w.id) : v = w := by
  cases v; cases w; simpa using h

/-- **A version is its three parts.** -/
theorem id_eq (v : Version) : v.id = v.major * 10000 + v.minor * 100 + v.patch := by
  simp only [major, minor, patch]
  omega

theorem major_le (v : Version) : v.major ≤ v.id := Nat.div_le_self ..

theorem minor_lt (v : Version) : v.minor < 100 := Nat.mod_lt (v.id / 100) (by decide)

theorem patch_lt (v : Version) : v.patch < 100 := Nat.mod_lt v.id (by decide)

theorem id_of_ofId? {id : Nat} {v : Version} (h : ofId? id = some v) : v.id = id := by
  unfold ofId? at h
  split at h
  · cases h; rfl
  · cases h

theorem ofId?_eq_some_iff {id : Nat} {v : Version} : ofId? id = some v ↔ v.id = id := by
  refine ⟨id_of_ofId?, ?_⟩
  rintro rfl
  rw [ofId?, dif_pos v.id_lt]

/-- Two parts are bounded, and the number is. -/
theorem ofParts?_eq_some_iff {a b c : Nat} {v : Version} :
    ofParts? a b c = some v ↔ b ≤ 99 ∧ c ≤ 99 ∧ v.id = a * 10000 + b * 100 + c := by
  rw [ofParts?, Option.ite_none_right_eq_some, ofId?_eq_some_iff, and_assoc]

/-- The parts a version was made of are the parts it has. -/
theorem parts_of_ofParts? {a b c : Nat} {v : Version} (h : ofParts? a b c = some v) :
    v.major = a ∧ v.minor = b ∧ v.patch = c := by
  unfold ofParts? at h
  split at h
  · have := id_of_ofId? h
    simp only [major, minor, patch]
    omega
  · cases h

theorem le_refl (v : Version) : v ≤ v := Nat.le_refl v.id

theorem le_trans {u v w : Version} (h : u ≤ v) (h' : v ≤ w) : u ≤ w := Nat.le_trans h h'

end Version

end TypeScribe

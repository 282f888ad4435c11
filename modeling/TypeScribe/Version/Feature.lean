import TypeScribe.Version.Basic
/-!
# What a version offers

Each form of type hint came with some version of the language and
stayed. `Version.has` asks whether a version has a form; a later version
has all that an earlier one has (`has_mono`).
-/

namespace TypeScribe

/-- The forms of hint that depend on the version. -/
inductive Feature
  /-- `int`, `float`, `string` and `bool`. -/
  | scalarTypes
  /-- `void`. -/
  | voidType
  /-- `iterable`. -/
  | iterableType
  /-- `?T`. -/
  | nullableType
  /-- `object`. -/
  | objectType
  /-- `A|B` of two or more members. -/
  | unionTypes
deriving DecidableEq, Repr

namespace Feature

/-- All forms, in the order they are listed in. -/
def all : List Feature :=
  [scalarTypes, voidType, iterableType, nullableType, objectType, unionTypes]

/-- The form's name in a listing. -/
def name : Feature → String
  | scalarTypes => "ScalarTypes"
  | voidType => "VoidType"
  | iterableType => "IterableType"
  | nullableType => "NullableType"
  | objectType => "ObjectType"
  | unionTypes => "UnionTypes"

/-- The first version with the form. -/
def since : Feature → Version
  | scalarTypes => ⟨70000, by decide⟩
  | voidType | iterableType | nullableType => ⟨70100, by decide⟩
  | objectType => ⟨70200, by decide⟩
  | unionTypes => ⟨80000, by decide⟩

theorem mem_all (f : Feature) : f ∈ all := by
  cases f <;> decide

end Feature

namespace Version

/-- Whether the version has a form of hint. -/
def has (v : Version) (f : Feature) : Bool :=
  f.since ≤ v

/-- The forms a version has, in listing order. -/
def features (v : Version) : List Feature :=
  Feature.all.filter v.has

@[simp] theorem has_iff {v : Version} {f : Feature} : v.has f = true ↔ f.since ≤ v :=
  decide_eq_true_iff

/-- **Nothing is taken away again.** -/
theorem has_mono {v w : Version} (h : v ≤ w) {f : Feature} (hf : v.has f = true) :
    w.has f = true :=
  has_iff.2 (le_trans (has_iff.1 hf) h)

/-- A form depends on major and minor part only. -/
theorem has_congr {v w : Version} (hmajor : v.major = w.major) (hminor : v.minor = w.minor)
    (f : Feature) : v.has f = w.has f := by
  have key : v.has f = true ↔ w.has f = true := by
    simp only [has_iff]
    simp only [major, minor] at hmajor hminor
    change f.since.id ≤ v.id ↔ f.since.id ≤ w.id
    cases f <;> simp only [Feature.since] <;> omega
  cases hv : v.has f <;> cases hw : w.has f <;> simp_all

end Version

end TypeScribe

import TypeScribe.Proofs.Classes.Ancestry
import TypeScribe.Proofs.Rendering.CommonAncestor
import TypeScribe.Proofs.Rendering.Gating
/-!
# A later version

Raising the version opens forms of hint and closes none. So a type that
has a hint keeps one, although the way to it may be another: a form that
was not there before is tried before a common ancestor is. What a normal
type gets after the change is what it had, with one exception, which takes
a version that is the first of the two to have unions: classes that were
hinted by a common ancestor may now be hinted side by side
(`exists_hint_of_le`).
-/

namespace TypeScribe

namespace Config

/-- The settings with another version and nothing else changed. -/
def withVersion (c : Config) (w : Version) : Config := { c with version := w }

variable {c : Config} {w : Version}

/-- A later version supports what the earlier one did. -/
theorem supports_withVersion_of_le (hle : c.version ≤ w) {f : Feature}
    (hf : c.supports f = true) : (c.withVersion w).supports f = true :=
  Version.has_mono hle hf

end Config

namespace Renderer

variable {c : Config} {w : Version} {h : Hierarchy} {slot : Slot}

/-! ## What does not ask the version -/

theorem all_isArrayLike_withVersion (ts : List Ty) :
    ts.all (Ty.isArrayLike (c.withVersion w)) = ts.all (Ty.isArrayLike c) := by
  have hsame : Ty.isArrayLike (c.withVersion w) = Ty.isArrayLike c := by
    funext t
    cases t <;> rfl
  rw [hsame]

theorem arrayHint_withVersion (ts : List Ty) :
    arrayHint (c.withVersion w) ts = arrayHint c ts := by
  have hmeans : Ty.meansIterable (c.withVersion w) = Ty.meansIterable c := by
    funext t
    cases t <;> rfl
  rw [arrayHint, arrayHint, hmeans]

/-! ## Types that are no union -/

/-- A hint that depends on a form of the earlier version is there in the
later one. -/
theorem gate_mono {α : Type} {f : Feature} {a b : α} (hle : c.version ≤ w)
    (ha : (if c.supports f then some b else none) = some a) :
    (if (c.withVersion w).supports f then some b else none) = some a := by
  obtain ⟨hsupports, hb⟩ := Option.ite_none_right_eq_some.1 ha
  rw [if_pos (Config.supports_withVersion_of_le hle hsupports), hb]

/-- **The hint of a type that is no union stays the same.** -/
theorem ownHint?_of_le (hle : c.version ≤ w) {t : Ty} {a : TypeHint}
    (ha : ownHint? c slot t = some a) : ownHint? (c.withVersion w) slot t = some a := by
  cases t with
  | scalar s => exact gate_mono hle ha
  | iterable t => exact gate_mono hle ha
  | anyObject => exact gate_mono hle ha
  | void =>
    obtain ⟨hallowed, hvoid⟩ := Option.ite_none_right_eq_some.1 ha
    simp only [Bool.and_eq_true] at hallowed
    obtain ⟨⟨hversion, hparam⟩, hproperty⟩ := hallowed
    have hlater := Config.supports_withVersion_of_le hle hversion
    rw [ownHint?, hlater, hparam, hproperty]
    exact hvoid
  | object ref =>
    cases ref <;> exact ha
  | _ => exact ha

/-- Of all members together. -/
theorem map_ownHint?_of_le (hle : c.version ≤ w) {ts : List Ty} {as : List TypeHint}
    (hmap : ts.map (ownHint? c slot) = as.map some) :
    ts.map (ownHint? (c.withVersion w) slot) = as.map some := by
  rw [← hmap]
  refine List.map_congr_left fun t ht => ?_
  have hsome : ownHint? c slot t ∈ as.map some := hmap ▸ List.mem_map_of_mem ht
  obtain ⟨a, -, ha⟩ := List.mem_map.1 hsome
  rw [← ha]
  exact ownHint?_of_le hle ha.symm

/-- Between two versions with unions there is nothing left to be gained. -/
theorem ownHint?_of_unionTypes (hv : c.supports .unionTypes = true)
    (hw : (c.withVersion w).supports .unionTypes = true) (t : Ty) :
    ownHint? (c.withVersion w) slot t = ownHint? c slot t := by
  have hsame : ∀ f, (c.withVersion w).supports f = c.supports f := by
    intro f
    rw [Config.supports_of_unionTypes hw, Config.supports_of_unionTypes hv]
  cases t with
  | object ref => cases ref <;> rfl
  | _ => simp only [ownHint?, hsame]

/-! ## Unions -/

/-- What a hint may become in a later version: the hint it is, or, if
unions have come in between, the hints of all members in the place of a
common ancestor. -/
inductive Becomes (c : Config) (w : Version) (h : Hierarchy) (t : Ty) (a : TypeHint) :
    TypeHint → Prop
  | same : Becomes c w h t a a
  | sideBySide {ts : List Ty} {as : List TypeHint} : t = .union ts →
      c.supports .unionTypes = false → w.has .unionTypes = true →
      (standard c h).commonAncestor? ts = some a → Becomes c w h t a (.union as)

/-- A common ancestor stays the hint, or the hints of all members take its
place. -/
theorem exists_unionHint_of_ancestor {ts : List Ty} {a : TypeHint}
    (hall : ts.all (Ty.isArrayLike c) = false) (hpair : Ty.besideNull? ts = none)
    (hmissing : c.supports .unionTypes = true → ∃ t ∈ ts, ownHint? c slot t = none)
    (hancestor : (standard c h).commonAncestor? ts = some a) :
    ∃ b, UnionHint (c.withVersion w) h slot ts b ∧ Becomes c w h (.union ts) a b := by
  have hall' := (all_isArrayLike_withVersion (w := w) ts).trans hall
  cases hnative : nativeHints? (c.withVersion w) slot ts with
  | none => exact ⟨a, .ancestor hall' hpair (nativeHints?_eq_none_iff.1 hnative) hancestor, .same⟩
  | some as =>
    obtain ⟨hw, hmap⟩ := nativeHints?_eq_some_iff.1 hnative
    have hv : c.supports .unionTypes = false := by
      -- with unions before as well, the member that had no hint would have none now
      by_contra hunions
      have hv : c.supports .unionTypes = true := by simpa using hunions
      obtain ⟨t, ht, hnone⟩ := hmissing hv
      have hsome : ownHint? (c.withVersion w) slot t ∈ as.map some :=
        hmap ▸ List.mem_map_of_mem ht
      rw [ownHint?_of_unionTypes hv hw, hnone] at hsome
      simp at hsome
    exact ⟨.union as, .native hall' hpair hw hmap, .sideBySide rfl hv hw hancestor⟩

/-- **A flat union keeps a hint**, whichever of the four ways it came
about. -/
theorem exists_unionHint_of_le (hle : c.version ≤ w) {ts : List Ty} {a : TypeHint}
    (ha : UnionHint c h slot ts a) :
    ∃ b, UnionHint (c.withVersion w) h slot ts b ∧ Becomes c w h (.union ts) a b := by
  cases ha with
  | arrays hall =>
    refine ⟨_, .arrays ((all_isArrayLike_withVersion ts).trans hall), ?_⟩
    rw [arrayHint_withVersion]
    exact .same
  | nullable hall hpair hone =>
    have hall' := (all_isArrayLike_withVersion (w := w) ts).trans hall
    exact ⟨_, .nullable hall' hpair (ownHint?_of_le hle hone), .same⟩
  | native hall hpair hunions hmap =>
    have hall' := (all_isArrayLike_withVersion (w := w) ts).trans hall
    exact ⟨_, .native hall' hpair (Config.supports_withVersion_of_le hle hunions)
      (map_ownHint?_of_le hle hmap), .same⟩
  | ancestor hall hpair hmissing hancestor =>
    exact exists_unionHint_of_ancestor hall hpair hmissing hancestor

/-- **A later version loses no hint.** A normal type that has a hint has
one in every later version, and it is the same one unless the later
version has unions and the earlier one has not. What changes then is a
common ancestor, which gives way to the hints of all members. -/
theorem exists_hint_of_le (hle : c.version ≤ w) {t : Ty} (ht : t.UnionsProper) {a : TypeHint}
    (ha : (standard c h).hint slot t = .ok (some a)) :
    ∃ b, (standard (c.withVersion w) h).hint slot t = .ok (some b) ∧
      (¬ (w.has .unionTypes = true ∧ c.version.has .unionTypes = false) → b = a) ∧
      Becomes c w h t a b := by
  have hkept : ∃ b, (standard (c.withVersion w) h).hint slot t = .ok (some b) ∧
      Becomes c w h t a b := by
    rcases t.isUnion_or_eq_union with hunion | ⟨ts, rfl⟩
    · rw [hint_of_isUnion hunion, Except.ok.injEq] at ha
      exact ⟨a, by rw [hint_of_isUnion hunion, ownHint?_of_le hle ha], .same⟩
    · have hflat := ht.properUnion.flat
      obtain ⟨b, hb, hbecomes⟩ := exists_unionHint_of_le hle ((hint_union_iff hflat).1 ha)
      exact ⟨b, (hint_union_iff hflat).2 hb, hbecomes⟩
  obtain ⟨b, hb, hbecomes⟩ := hkept
  refine ⟨b, hb, fun hunions => ?_, hbecomes⟩
  cases hbecomes with
  | same => rfl
  | sideBySide _ hv hw _ => exact absurd ⟨hw, hv⟩ hunions

/-- A class and its parent, as the members of a union. -/
def dogOrAnimal : List Ty := [.object (.named "Dog"), .object (.named "Animal")]

/-- The hierarchy of the two. -/
def dogs : Hierarchy := .ofDeclarations [("Dog", ["Animal"])]

theorem related_dogs : dogs.related "Dog" "Animal" = true := by
  have hdeclared : ("Dog", ["Animal"]) ∈ [("Dog", ["Animal"])] := List.mem_singleton_self _
  have hparent : "Animal" ∈ ("Dog", ["Animal"]).2 := List.mem_singleton_self _
  have hedge : Hierarchy.DeclaredEdge [("Dog", ["Animal"])] (Text.fold "Dog")
      (Text.fold "Animal") := ⟨_, hdeclared, rfl, _, hparent, rfl⟩
  have hclass : Hierarchy.Mentions [("Dog", ["Animal"])] ("Dog", ["Animal"]).1 :=
    Hierarchy.mentions_class hdeclared
  have hancestry : Hierarchy.Ancestry [("Dog", ["Animal"])] "Dog" "Animal" :=
    ⟨hclass, Hierarchy.mentions_supertype hdeclared hparent, .single hedge⟩
  rw [Hierarchy.related, Bool.or_eq_true]
  exact .inl (Hierarchy.isSubclassOf_ofDeclarations.2 hancestry)

theorem unionsProper_dogOrAnimal : (Ty.union dogOrAnimal).UnionsProper := by
  have hbuilt : (Ty.unionOf dogOrAnimal).Built := .unionOf_leaves rfl
  exact hbuilt.normal.1

/-- Where hints cannot be unions, a class that stands for the union it is
the first member of is the hint. -/
theorem hint_of_first_standsFor {ref : ClassRef} {ts : List Ty}
    (hproper : Ty.ProperUnion (.object ref :: ts)) (hversion : c.supports .unionTypes = false)
    (harrays : (Ty.object ref :: ts).all (Ty.isArrayLike c) = false)
    (hpair : Ty.besideNull? (.object ref :: ts) = none)
    (hstands : standsFor h (.object ref :: ts) (.object ref) = true) :
    (standard c h).hint slot (.union (.object ref :: ts)) =
      .ok (some (.rooted (Text.unrooted ref.identity))) := by
  have hancestor : (standard c h).commonAncestor? (.object ref :: ts) =
      some (.rooted (Text.unrooted ref.identity)) := by
    rw [commonAncestor?_eq hproper.nodup, List.find?_cons_of_pos hstands]
    rfl
  refine (hint_union_iff hproper.flat).2 (.ancestor harrays hpair ?_ hancestor)
  intro hunions
  rw [hversion] at hunions
  cases hunions

theorem hint_dogOrAnimal (hversion : c.supports .unionTypes = false)
    (harrays : dogOrAnimal.all (Ty.isArrayLike c) = false) :
    (standard c dogs).hint slot (.union dogOrAnimal) = .ok (some (.rooted "Dog")) := by
  have hstands : standsFor dogs dogOrAnimal (.object (.named "Dog")) = true := by
    simp [standsFor, dogOrAnimal, ClassRef.identity, related_dogs]
  exact hint_of_first_standsFor unionsProper_dogOrAnimal.properUnion hversion harrays rfl hstands

/-- In the last version without unions a union of the two is hinted by the
class, in the first version with unions by both. -/
theorem exists_hint_of_le_dogs :
    (⟨⟨70400, by decide⟩, "Closure", "Traversable"⟩ : Config).version ≤ Feature.unionTypes.since ∧
    (Ty.union dogOrAnimal).UnionsProper ∧
    (standard ⟨⟨70400, by decide⟩, "Closure", "Traversable"⟩ dogs).hint .param
      (.union dogOrAnimal) = .ok (some (.rooted "Dog")) ∧
    (standard ⟨Feature.unionTypes.since, "Closure", "Traversable"⟩ dogs).hint .param
      (.union dogOrAnimal) = .ok (some (.union [.rooted "Dog", .rooted "Animal"])) ∧
    Becomes ⟨⟨70400, by decide⟩, "Closure", "Traversable"⟩ Feature.unionTypes.since dogs
      (.union dogOrAnimal) (.rooted "Dog") (.union [.rooted "Dog", .rooted "Animal"]) := by
  have hle : (⟨⟨70400, by decide⟩, "Closure", "Traversable"⟩ : Config).version ≤
      Feature.unionTypes.since := by decide
  have hbefore : (standard ⟨⟨70400, by decide⟩, "Closure", "Traversable"⟩ dogs).hint .param
      (.union dogOrAnimal) = .ok (some (.rooted "Dog")) := hint_dogOrAnimal rfl rfl
  obtain ⟨b, hb, -, hbecomes⟩ := exists_hint_of_le hle unionsProper_dogOrAnimal hbefore
  have hafter : (standard ⟨Feature.unionTypes.since, "Closure", "Traversable"⟩ dogs).hint .param
      (.union dogOrAnimal) = .ok (some (.union [.rooted "Dog", .rooted "Animal"])) :=
    (hint_union_iff unionsProper_dogOrAnimal.properUnion.flat).2 (.native rfl rfl rfl rfl)
  obtain rfl : .union [.rooted "Dog", .rooted "Animal"] = b :=
    Option.some.inj (Except.ok.inj (hafter.symm.trans hb))
  exact ⟨hle, unionsProper_dogOrAnimal, hbefore, hafter, hbecomes⟩

end Renderer

end TypeScribe

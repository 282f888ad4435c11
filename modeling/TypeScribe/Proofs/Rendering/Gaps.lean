import TypeScribe.Proofs.Rendering.DocFailure
import TypeScribe.Proofs.Text.Openings
/-!
# Gaps in the short form

Some types have nothing to say in the short form (`Silent`). Where texts
are joined the empty ones are left out, so that no alternative of the
result is empty. There is one exception: an array of a union puts its mark
behind the text of every member, and behind an empty text the mark stands
alone, as an alternative that begins with a bracket. `openings_docText`
says that this is the only way to come by such an alternative.

The proof carries what a text tells about its type (`Tells`) from the
parts to the whole, by one lemma for each way of joining texts.
-/

namespace TypeScribe

open Text (openings)

namespace Ty

/-- The types whose alternatives are also alternatives of a type. -/
def listedParts : Ty → List Ty
  | array t => [t]
  | union ts => ts
  | _ => []

/-- The alternatives of the one type are alternatives of the other. -/
def ListedIn (s t : Ty) : Prop := Relation.ReflTransGen (fun a b => a ∈ b.listedParts) s t

/-- **Induction as the short form goes**: an array of a union is put together
from the members of the union. -/
theorem formInduction {P : Ty → Prop} (union : ∀ ts, (∀ t ∈ ts, P t) → P (.union ts))
    (intersection : ∀ ts, (∀ t ∈ ts, P t) → P (.intersection ts))
    (arrayOfUnion : ∀ ts, (∀ t ∈ ts, P t) → P (.array (.union ts)))
    (array : ∀ t, t.isUnion = false → P t → P (.array t))
    (single : ∀ t, (t.isLeaf = true ∨ ∃ item, t = .iterable item) → P t) (t : Ty) : P t := by
  -- the members are parts of a part, so the parts are carried along
  suffices h : P t ∧ ∀ s ∈ t.parts, P s from h.1
  induction t using Ty.induction with
  | step t ih =>
    have hparts : ∀ s ∈ t.parts, P s := fun s hs => (ih s hs).1
    refine ⟨?_, hparts⟩
    cases t with
    | union ts => exact union ts hparts
    | intersection ts => exact intersection ts hparts
    | iterable item => exact single _ (.inr ⟨item, rfl⟩)
    | array item =>
      have hitem := List.mem_singleton_self item
      rcases item.isUnion_or_eq_union with hunion | ⟨ts, rfl⟩
      · exact array item hunion (hparts item hitem)
      · exact arrayOfUnion ts (ih (.union ts) hitem).2
    | _ => exact single _ (.inl rfl)

/-- What is written in a type occurs in it. -/
theorem WrittenIn.occursIn {s t : Ty} (h : s.WrittenIn t) : s.OccursIn t := by
  refine Relation.ReflTransGen.mono (fun a b hab => ?_) _ _ h
  cases b <;> first | exact hab | cases hab

/-- A property is met in a type or in one of its parts. -/
theorem exists_below_iff {parts : Ty → List Ty} {P : Ty → Prop} {t : Ty} :
    (∃ u, Relation.ReflTransGen (fun a b => a ∈ parts b) u t ∧ P u) ↔
      P t ∨ ∃ s ∈ parts t, ∃ u, Relation.ReflTransGen (fun a b => a ∈ parts b) u s ∧ P u := by
  constructor
  · rintro ⟨u, hreach, hu⟩
    rcases hreach.cases_tail with rfl | ⟨s, hs, hpart⟩
    · exact .inl hu
    · exact .inr ⟨s, hpart, u, hs, hu⟩
  · rintro (ht | ⟨s, hpart, u, hs, hu⟩)
    · exact ⟨t, .refl, ht⟩
    · exact ⟨u, hs.tail hpart, hu⟩

end Ty

namespace Renderer

variable {texts : List String} {s : String} {c : Option Char}

/-! ## Joined texts -/

theorem mem_kept {w : String} :
    w ∈ texts.eraseDups.filter (· ≠ "") ↔ w ∈ texts ∧ w ≠ "" := by
  rw [List.mem_filter, List.mem_eraseDups, decide_eq_true_iff]

/-- Members in a row are empty together only. -/
theorem joinDistinct_eq_empty_iff (sep : String) :
    joinDistinct sep texts = "" ↔ ∀ s ∈ texts, s = "" := by
  rw [joinDistinct, Text.intercalate_eq_empty_iff fun w hw => (mem_kept.1 hw).2]
  simp [List.filter_eq_nil_iff]

/-- Texts with marks behind them are not empty. -/
theorem ne_empty_of_mem_marked {w : String} (hw : w ∈ (texts.map (· ++ "[]")).eraseDups) :
    w ≠ "" := by
  obtain ⟨s, -, rfl⟩ := List.mem_map.1 (List.mem_eraseDups.1 hw)
  exact fun hempty => absurd (String.append_eq_empty_iff.1 hempty).2 (by decide)

/-- An array of a union is empty only if the union is of nothing. -/
theorem arraysOf_eq_empty_iff : arraysOf texts = "" ↔ texts = [] := by
  rw [arraysOf, Text.intercalate_eq_empty_iff fun _ => ne_empty_of_mem_marked]
  cases texts <;> simp [List.eraseDups_cons]

/-- A union has the openings of its members. -/
theorem mem_openings_joinDistinct_bar :
    c ∈ openings (joinDistinct "|" texts) ↔ ∃ s ∈ texts, c ∈ openings s := by
  rw [joinDistinct, Text.openings_row fun w hw => (mem_kept.1 hw).2, List.mem_flatMap]
  constructor
  · rintro ⟨s, hs, hc⟩
    exact ⟨s, (mem_kept.1 hs).1, hc⟩
  · rintro ⟨s, hs, hc⟩
    refine ⟨s, mem_kept.2 ⟨hs, ?_⟩, hc⟩
    rintro rfl
    simp at hc

/-- What is joined otherwise has no openings but those of the texts. -/
theorem mem_openings_of_mem_intercalate {words : List String} (hwords : ∀ w ∈ words, w ≠ "")
    (hfull : ∀ w ∈ words, none ∉ openings w) (hc : c ∈ openings ("&".intercalate words)) :
    ∃ w ∈ words, c ∈ openings w := by
  induction words with
  | nil => simp at hc
  | cons v words ih =>
    cases words with
    | nil => exact ⟨v, by simp, by simpa using hc⟩
    | cons w words =>
      rw [String.intercalate_cons_cons] at hc
      rcases Text.mem_openings_joined (by decide) (hwords v (by simp)) (hfull v (by simp)) hc with
        hc | hc
      · exact ⟨v, by simp, hc⟩
      · obtain ⟨u, hu, hopen⟩ := ih (fun u hu => hwords u (by simp [hu]))
          (fun u hu => hfull u (by simp [hu])) hc
        exact ⟨u, by simp [hu], hopen⟩

/-- An intersection has no openings but those of its members. -/
theorem mem_openings_joinDistinct_amp (hfull : ∀ s ∈ texts, none ∉ openings s)
    (hc : c ∈ openings (joinDistinct "&" texts)) : ∃ s ∈ texts, c ∈ openings s := by
  obtain ⟨w, hw, hc⟩ := mem_openings_of_mem_intercalate (fun w hw => (mem_kept.1 hw).2)
    (fun w hw => hfull w (mem_kept.1 hw).1) hc
  exact ⟨w, (mem_kept.1 hw).1, hc⟩

/-- **A mark behind a text** leaves its openings and opens a bracket behind
an empty one. -/
theorem mem_openings_mark (hfull : none ∉ openings s) :
    c ∈ openings (s ++ "[]") ↔ c ∈ openings s ∨ s = "" ∧ c = some '[' := by
  by_cases hs : s = ""
  · have hmark : openings ("" ++ "[]") = [some '['] := rfl
    rw [hs, hmark, List.mem_singleton]
    simp
  · rw [Text.openings_append_of_not_mem hs hfull (by decide)]
    simp [hs]

/-- An array of a union has the openings of the members, and one more if a
member is empty. -/
theorem mem_openings_arraysOf (hfull : ∀ s ∈ texts, none ∉ openings s) :
    c ∈ openings (arraysOf texts) ↔
      ∃ s ∈ texts, c ∈ openings s ∨ s = "" ∧ c = some '[' := by
  rw [arraysOf, Text.openings_row fun _ => ne_empty_of_mem_marked, List.mem_flatMap]
  simp only [List.mem_eraseDups, List.mem_map, exists_exists_and_eq_and]
  exact exists_congr fun s => and_congr_right fun hs => mem_openings_mark (hfull s hs)

/-- **A mark in every alternative** changes no opening. -/
theorem openings_arrayText (hfull : none ∉ openings s) : openings (arrayText s) = openings s := by
  by_cases hs : s = ""
  · rw [hs]
    rfl
  have hparts := (Text.none_not_mem_openings_iff.1 hfull).resolve_left hs
  have hkept : (Text.segments '|' s.toList).filter (· ≠ []) = Text.segments '|' s.toList :=
    List.filter_eq_self.2 fun part hpart => by simpa using hparts part hpart
  have hmarked : ∀ part ∈ Text.segments '|' s.toList,
      openings (String.ofList part ++ "[]") = [part.head?] := by
    intro part hpart
    have hword : Text.IsWord (String.ofList part ++ "[]") := by
      refine Text.IsWord.append ⟨by simpa using hparts part hpart, ?_⟩ (by decide)
      rw [String.toList_ofList]
      exact Text.not_mem_of_mem_segments hpart
    rw [Text.openings_of_isWord hword, String.toList_append, String.toList_ofList,
      List.head?_append_of_ne_nil _ (hparts part hpart)]
  have hwords : ∀ w ∈ (Text.segments '|' s.toList).map (fun part => String.ofList part ++ "[]"),
      w ≠ "" := by
    simp
  rw [arrayText, hkept, Text.openings_row hwords, List.flatMap_map, List.flatMap_congr hmarked,
    ← List.map_eq_flatMap, Text.openings_of_ne_empty hs]

/-! ## Names -/

/-- Named by words without brackets, if by a class. -/
def NamedByWords (config : Config) : Ty → Prop
  | .object ref => ∀ name ∈ ref.names, Text.IsWord name ∧ '[' ∉ name.toList
  | .closure => '|' ∉ config.closureClass.toList
  | _ => True

/-- A single alternative that is not empty and does not begin with a
bracket. -/
structure IsName (s : String) : Prop where
  word : Text.IsWord s
  opening : s.toList.head? ≠ some '['

theorem IsName.openings_eq (h : IsName s) : ∃ c, c ≠ '[' ∧ openings s = [some c] := by
  rw [Text.openings_of_isWord h.word]
  cases hs : s.toList with
  | nil => exact absurd (String.toList_eq_nil_iff.1 hs) h.word.ne_empty
  | cons c rest =>
    refine ⟨c, ?_, rfl⟩
    rintro rfl
    exact h.opening (by rw [hs, List.head?_cons])

theorem isName_rooted {name : String} (hbar : '|' ∉ name.toList) : IsName (Text.rooted name) where
  word := Text.isWord_rooted hbar
  opening := by
    rw [Text.rooted, String.toList_append, List.head?_append_of_ne_nil _ (by decide)]
    decide

theorem isName_docName {m : Renderer} {ref : ClassRef}
    (hnames : ∀ name ∈ ref.names, Text.IsWord name ∧ '[' ∉ name.toList) :
    IsName (m.docName ref) := by
  obtain ⟨name, hname, heq | heq⟩ := exists_docName_eq m ref
  · obtain ⟨hword, hbracket⟩ := hnames name hname
    exact heq ▸ ⟨hword, fun hhead => hbracket (List.mem_of_head? hhead)⟩
  · exact heq ▸ isName_rooted (hnames name hname).1.bar_not_mem

/-! ## Silent types and gaps -/

/-- Types with an empty text: `void` and iterables, from the first version
with scalar hints on, and what is put together from silent types only. -/
inductive Silent (m : Renderer) : Ty → Prop
  | void : m.supports .scalarTypes = true → Silent m .void
  | iterable (item : Ty) : m.supports .scalarTypes = true → Silent m (.iterable item)
  | union {ts : List Ty} : (∀ t ∈ ts, Silent m t) → Silent m (.union ts)
  | intersection {ts : List Ty} : (∀ t ∈ ts, Silent m t) → Silent m (.intersection ts)
  | array {t : Ty} : t.isUnion = false → Silent m t → Silent m (.array t)
  | arrayOfNone : Silent m (.array (.union []))

/-- An array of a union with a silent member. -/
def HasGap (m : Renderer) : Ty → Prop
  | .array (.union ts) => ∃ t ∈ ts, m.Silent t
  | _ => False

/-- There is a gap in what the short form writes. -/
def HoldsGap (m : Renderer) (t : Ty) : Prop := ∃ u, u.WrittenIn t ∧ m.HasGap u

/-- And one outside of intersections. -/
def ShowsGap (m : Renderer) (t : Ty) : Prop := ∃ u, u.ListedIn t ∧ m.HasGap u

section

variable {m : Renderer} {t : Ty} {ts : List Ty}

theorem silent_union_iff : m.Silent (.union ts) ↔ ∀ t ∈ ts, m.Silent t := by
  refine ⟨fun h => ?_, .union⟩
  cases h with
  | union hts => exact hts

theorem silent_intersection_iff : m.Silent (.intersection ts) ↔ ∀ t ∈ ts, m.Silent t := by
  refine ⟨fun h => ?_, .intersection⟩
  cases h with
  | intersection hts => exact hts

theorem silent_array_iff (hitem : t.isUnion = false) : m.Silent (.array t) ↔ m.Silent t := by
  refine ⟨fun h => ?_, .array hitem⟩
  cases h with
  | array _ ht => exact ht
  | arrayOfNone => cases hitem

theorem silent_array_union_iff : m.Silent (.array (.union ts)) ↔ ts = [] := by
  constructor
  · intro h
    cases h with
    | array hitem _ => cases hitem
    | arrayOfNone => rfl
  · rintro rfl
    exact .arrayOfNone

theorem holdsGap_iff : m.HoldsGap t ↔ m.HasGap t ∨ ∃ s ∈ t.writtenParts, m.HoldsGap s :=
  Ty.exists_below_iff

theorem showsGap_iff : m.ShowsGap t ↔ m.HasGap t ∨ ∃ s ∈ t.listedParts, m.ShowsGap s :=
  Ty.exists_below_iff

theorem not_holdsGap (h : t.Everywhere fun u => ¬ m.HasGap u) : ¬ m.HoldsGap t := by
  rintro ⟨u, hu, hgap⟩
  exact h u hu.occursIn hgap

/-! ## What a text tells -/

/-- What the text of a type has to do with its gaps. -/
structure Tells (m : Renderer) (t : Ty) (s : String) : Prop where
  /-- No alternative is empty. -/
  full : none ∉ openings s
  empty_iff : s = "" ↔ m.Silent t
  holdsGap : some '[' ∈ openings s → m.HoldsGap t
  opening_mem : m.ShowsGap t → some '[' ∈ openings s

/-- Texts tell about types, each about one of them, and all are told
about. -/
structure TellsOf (m : Renderer) (ts : List Ty) (texts : List String) : Prop where
  text : ∀ t ∈ ts, ∃ s ∈ texts, m.Tells t s
  type : ∀ s ∈ texts, ∃ t ∈ ts, m.Tells t s

theorem TellsOf.nil : m.TellsOf [] [] := ⟨by simp, by simp⟩

theorem TellsOf.cons (hs : m.Tells t s) (h : m.TellsOf ts texts) :
    m.TellsOf (t :: ts) (s :: texts) where
  text := by
    refine List.forall_mem_cons.2 ⟨⟨s, by simp, hs⟩, fun u hu => ?_⟩
    obtain ⟨r, hr, htells⟩ := h.text u hu
    exact ⟨r, by simp [hr], htells⟩
  type := by
    refine List.forall_mem_cons.2 ⟨⟨t, by simp, hs⟩, fun r hr => ?_⟩
    obtain ⟨u, hu, htells⟩ := h.type r hr
    exact ⟨u, by simp [hu], htells⟩

theorem TellsOf.eq_nil_iff (h : m.TellsOf ts texts) : texts = [] ↔ ts = [] := by
  constructor
  · rintro rfl
    refine List.eq_nil_iff_forall_not_mem.2 fun t ht => ?_
    obtain ⟨s, hs, -⟩ := h.text t ht
    cases hs
  · rintro rfl
    refine List.eq_nil_iff_forall_not_mem.2 fun s hs => ?_
    obtain ⟨t, ht, -⟩ := h.type s hs
    cases ht

theorem TellsOf.full (h : m.TellsOf ts texts) : ∀ s ∈ texts, none ∉ openings s := by
  intro s hs
  obtain ⟨t, -, htells⟩ := h.type s hs
  exact htells.full

/-- All texts are empty if all types are silent. -/
theorem TellsOf.empty_iff (h : m.TellsOf ts texts) :
    (∀ s ∈ texts, s = "") ↔ ∀ t ∈ ts, m.Silent t := by
  constructor
  · intro hempty t ht
    obtain ⟨s, hs, htells⟩ := h.text t ht
    exact htells.empty_iff.1 (hempty s hs)
  · intro hsilent s hs
    obtain ⟨t, ht, htells⟩ := h.type s hs
    exact htells.empty_iff.2 (hsilent t ht)

theorem TellsOf.holdsGap (h : m.TellsOf ts texts) (hs : ∃ s ∈ texts, some '[' ∈ openings s) :
    ∃ t ∈ ts, m.HoldsGap t := by
  obtain ⟨s, hs, hopen⟩ := hs
  obtain ⟨t, ht, htells⟩ := h.type s hs
  exact ⟨t, ht, htells.holdsGap hopen⟩

theorem TellsOf.opening_mem (h : m.TellsOf ts texts) (ht : ∃ t ∈ ts, m.ShowsGap t) :
    ∃ s ∈ texts, some '[' ∈ openings s := by
  obtain ⟨t, ht, hshows⟩ := ht
  obtain ⟨s, hs, htells⟩ := h.text t ht
  exact ⟨s, hs, htells.opening_mem hshows⟩

theorem TellsOf.union (h : m.TellsOf ts texts) :
    m.Tells (.union ts) (joinDistinct "|" texts) where
  full hnone := by
    obtain ⟨s, hs, hopen⟩ := mem_openings_joinDistinct_bar.1 hnone
    exact h.full s hs hopen
  empty_iff := by rw [joinDistinct_eq_empty_iff, h.empty_iff, silent_union_iff]
  holdsGap hopen :=
    holdsGap_iff.2 (.inr (h.holdsGap (mem_openings_joinDistinct_bar.1 hopen)))
  opening_mem hshows := by
    rcases showsGap_iff.1 hshows with hgap | hparts
    · cases hgap
    · exact mem_openings_joinDistinct_bar.2 (h.opening_mem hparts)

theorem TellsOf.intersection (h : m.TellsOf ts texts) :
    m.Tells (.intersection ts) (joinDistinct "&" texts) where
  full hnone := by
    obtain ⟨s, hs, hopen⟩ := mem_openings_joinDistinct_amp h.full hnone
    exact h.full s hs hopen
  empty_iff := by rw [joinDistinct_eq_empty_iff, h.empty_iff, silent_intersection_iff]
  holdsGap hopen :=
    holdsGap_iff.2 (.inr (h.holdsGap (mem_openings_joinDistinct_amp h.full hopen)))
  opening_mem hshows := by
    -- nothing is listed in an intersection, and it is no array
    rcases showsGap_iff.1 hshows with hgap | ⟨s, hs, -⟩
    · cases hgap
    · cases hs

theorem TellsOf.array_union (h : m.TellsOf ts texts) :
    m.Tells (.array (.union ts)) (arraysOf texts) where
  full hnone := by
    obtain ⟨s, hs, hopen | ⟨-, hbracket⟩⟩ := (mem_openings_arraysOf h.full).1 hnone
    · exact h.full s hs hopen
    · cases hbracket
  empty_iff := by rw [arraysOf_eq_empty_iff, silent_array_union_iff, h.eq_nil_iff]
  holdsGap hopen := by
    obtain ⟨s, hs, hopen | ⟨rfl, -⟩⟩ := (mem_openings_arraysOf h.full).1 hopen
    · have hunion : m.HoldsGap (.union ts) := holdsGap_iff.2 (.inr (h.holdsGap ⟨s, hs, hopen⟩))
      exact holdsGap_iff.2 (.inr ⟨.union ts, List.mem_singleton_self _, hunion⟩)
    · obtain ⟨t, ht, htells⟩ := h.type "" hs
      exact holdsGap_iff.2 (.inl ⟨t, ht, htells.empty_iff.1 rfl⟩)
  opening_mem hshows := by
    rw [mem_openings_arraysOf h.full]
    rcases showsGap_iff.1 hshows with ⟨t, ht, hsilent⟩ | ⟨_, hunion, hshows⟩
    · obtain ⟨s, hs, htells⟩ := h.text t ht
      exact ⟨s, hs, .inr ⟨htells.empty_iff.2 hsilent, rfl⟩⟩
    · -- the union is no gap itself, so one of its members shows one
      obtain rfl := List.mem_singleton.1 hunion
      rcases showsGap_iff.1 hshows with hgap | hparts
      · cases hgap
      · obtain ⟨s, hs, hopen⟩ := h.opening_mem hparts
        exact ⟨s, hs, .inl hopen⟩

theorem not_hasGap_array (hitem : t.isUnion = false) : ¬ m.HasGap (.array t) := by
  cases t <;> first | exact id | cases hitem

theorem Tells.array (h : m.Tells t s) (hitem : t.isUnion = false) :
    m.Tells (.array t) (arrayText s) where
  full := by
    rw [openings_arrayText h.full]
    exact h.full
  empty_iff := by
    rw [← Text.openings_eq_nil_iff, openings_arrayText h.full, Text.openings_eq_nil_iff,
      silent_array_iff hitem, h.empty_iff]
  holdsGap hopen := by
    rw [openings_arrayText h.full] at hopen
    exact holdsGap_iff.2 (.inr ⟨t, List.mem_singleton_self t, h.holdsGap hopen⟩)
  opening_mem hshows := by
    rw [openings_arrayText h.full]
    rcases showsGap_iff.1 hshows with hgap | ⟨_, hmem, hshows⟩
    · exact absurd hgap (not_hasGap_array hitem)
    · exact h.opening_mem (List.mem_singleton.1 hmem ▸ hshows)

/-- A silent type without parts. -/
theorem tells_empty (hsilent : m.Silent t) (hgap : ¬ m.HasGap t) (hparts : t.listedParts = []) :
    m.Tells t "" where
  full := by simp
  empty_iff := iff_of_true rfl hsilent
  holdsGap hopen := by simp at hopen
  opening_mem hshows := by
    rw [showsGap_iff, hparts] at hshows
    simp [hgap] at hshows

/-- A type without parts that is written as a name. -/
theorem IsName.tells (h : IsName s) (hloud : ¬ m.Silent t) (hgap : ¬ m.HasGap t)
    (hparts : t.listedParts = []) : m.Tells t s := by
  obtain ⟨c, hc, hopen⟩ := h.openings_eq
  refine ⟨by simp [hopen], iff_of_false h.word.ne_empty hloud, ?_, ?_⟩
  · intro hbracket
    simp [hopen, hc.symm] at hbracket
  · intro hshows
    rw [showsGap_iff, hparts] at hshows
    simp [hgap] at hshows

/-- Types without parts are written as names, unless they are silent. -/
theorem tells_of_docText_single (hnamed : NamedByWords m.config t)
    (hsingle : t.isLeaf = true ∨ ∃ item, t = .iterable item) (h : m.docText none t = .ok s) :
    m.Tells t s := by
  cases t with
  | array _ | union _ | intersection _ => simp [Ty.isLeaf] at hsingle
  | staticRef _ => cases h
  | object ref =>
    cases h
    exact (isName_docName hnamed).tells (by rintro ⟨⟩) id rfl
  | closure =>
    cases h
    exact (isName_rooted hnamed).tells (by rintro ⟨⟩) id rfl
  | scalar k =>
    cases h
    have hname : IsName k.name := by cases k <;> exact ⟨⟨by decide, by decide⟩, by decide⟩
    exact hname.tells (by rintro ⟨⟩) id rfl
  | void | iterable _ =>
    rw [docText, Except.ok.injEq] at h
    subst h
    by_cases hsupports : m.supports .scalarTypes = true
    · rw [if_pos hsupports]
      exact tells_empty (by constructor; exact hsupports) id rfl
    · rw [if_neg hsupports]
      refine IsName.tells ⟨⟨by decide, by decide⟩, by decide⟩ (fun hsilent => ?_) id rfl
      cases hsilent
      contradiction
  | _ =>
    cases h
    exact IsName.tells ⟨⟨by decide, by decide⟩, by decide⟩ (by rintro ⟨⟩) id rfl

theorem tellsOf_docTexts (hts : ∀ t ∈ ts, ∀ s, m.docText none t = .ok s → m.Tells t s)
    (h : m.docTexts none ts = .ok texts) : m.TellsOf ts texts := by
  induction ts generalizing texts with
  | nil =>
    rw [docTexts, Except.ok.injEq] at h
    exact h ▸ .nil
  | cons t ts ih =>
    rw [docTexts] at h
    cases htext : m.docText none t with
    | error e =>
      rw [htext] at h
      cases h
    | ok s =>
      rw [htext] at h
      obtain ⟨rest, hrest, rfl⟩ := map_eq_ok_iff.1 h
      exact .cons (hts t (by simp) s htext) (ih (fun t ht => hts t (by simp [ht])) hrest)

/-- **Every text tells about its type.** -/
theorem tells_of_docText (hnamed : t.Everywhere (NamedByWords m.config))
    (h : m.docText none t = .ok s) : m.Tells t s := by
  induction t using Ty.formInduction generalizing s with
  | union ts ih =>
    rw [docText_union] at h
    obtain ⟨texts, htexts, rfl⟩ := map_eq_ok_iff.1 h
    exact (tellsOf_docTexts (fun t ht s => ih t ht (hnamed.part ht)) htexts).union
  | intersection ts ih =>
    rw [docText] at h
    obtain ⟨texts, htexts, rfl⟩ := map_eq_ok_iff.1 h
    exact (tellsOf_docTexts (fun t ht s => ih t ht (hnamed.part ht)) htexts).intersection
  | arrayOfUnion ts ih =>
    rw [docText_array_union] at h
    obtain ⟨texts, htexts, rfl⟩ := map_eq_ok_iff.1 h
    have hmembers := hnamed.part (List.mem_singleton_self (Ty.union ts))
    exact (tellsOf_docTexts (fun t ht s => ih t ht (hmembers.part ht)) htexts).array_union
  | array t hitem ih =>
    rw [docText_array none hitem] at h
    obtain ⟨text, htext, rfl⟩ := map_eq_ok_iff.1 h
    exact (ih (hnamed.part (List.mem_singleton_self t)) htext).array hitem
  | single t hsingle => exact tells_of_docText_single hnamed.here hsingle h

end

/-- **The gaps of the short form.** Whatever is put together, no alternative
is empty, and the text as a whole is only if the type is silent. An
alternative begins with a bracket only if somewhere an array of a union
with a silent member is written, and it always does if this is outside of
intersections. -/
theorem openings_docText (m : Renderer) {parent : Option Ty} {t : Ty} {s : String}
    (hnamed : t.Everywhere (NamedByWords m.config)) (h : m.docText parent t = .ok s) :
    none ∉ openings s ∧ (s = "" ↔ m.Silent t) ∧
    (¬ m.HoldsGap t → some '[' ∉ openings s) ∧ (m.ShowsGap t → some '[' ∈ openings s) := by
  rw [docText_parent] at h
  have htells := tells_of_docText hnamed h
  exact ⟨htells.full, htells.empty_iff, mt htells.holdsGap, htells.opening_mem⟩

/-- Arrays of arrays of numbers or users have no gap. -/
theorem openings_docText_tables :
    tables.Everywhere (NamedByWords {}) ∧
    (standard {} .empty).docText none tables = .ok "int[][]|User[][]" ∧
    none ∉ openings "int[][]|User[][]" ∧ some '[' ∉ openings "int[][]|User[][]" := by
  have hnamed : tables.Everywhere (NamedByWords {}) := by
    refine everywhere_tables trivial ?_ trivial trivial trivial
    have huser : Text.IsWord "User" := ⟨by decide, by decide⟩
    simpa [NamedByWords, ClassRef.names] using huser
  have htext : (standard {} .empty).docText none tables = .ok "int[][]|User[][]" := rfl
  obtain ⟨hfull, -, hgap, -⟩ := openings_docText (standard {} .empty) hnamed htext
  refine ⟨hnamed, htext, hfull, hgap (not_holdsGap ?_)⟩
  refine everywhere_tables id id id ?_ id
  rintro ⟨t, ht, hsilent⟩
  simp only [List.mem_cons, List.not_mem_nil, or_false] at ht
  rcases ht with rfl | rfl <;> cases hsilent

/-- Arrays of nothing or a number. -/
def arrayOrNothing : Ty := .array (.unionOf [.void, .scalar .int])

/-- **Alternatives can be nothing but a mark.** -/
theorem openings_docText_arrayOrNothing :
    arrayOrNothing.Everywhere (NamedByWords {}) ∧
    (standard {} .empty).docText none arrayOrNothing = .ok "[]|int[]" ∧
    ¬ ("[]|int[]" = "" ∨ none ∉ openings "[]|int[]" ∧ some '[' ∉ openings "[]|int[]") := by
  refine ⟨?_, rfl, ?_⟩
  · refine Ty.everywhere_array.2 ⟨trivial, Ty.everywhere_union.2 ⟨trivial, fun t ht => ?_⟩⟩
    simp only [List.mem_cons, List.not_mem_nil, or_false] at ht
    rcases ht with rfl | rfl <;> exact Ty.everywhere_of_parts_eq_nil rfl trivial
  · rintro (hempty | ⟨-, hbracket⟩)
    · exact absurd hempty (by decide)
    · exact hbracket (List.mem_cons_self)

end Renderer

end TypeScribe

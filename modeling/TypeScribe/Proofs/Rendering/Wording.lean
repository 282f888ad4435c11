import Mathlib.Tactic.Choose
import TypeScribe.Proofs.Rendering.Alternatives
import TypeScribe.Proofs.Rendering.DocTypeText
/-!
# Two ways of writing a type

A type without intersections can be written as its doc type is, or at once
in the short form. Both say the same as long as every array is of
something written with single words. In a union the short form tells
members apart by their texts and the doc type by what they are, and an
array of a union puts its mark behind the whole text of a member, be this
a row or not. Where neither makes a difference the type is called
unambiguous, and **these are all the differences there are**
(`writtenAlike_everywhere_iff`).
-/

namespace TypeScribe

/-! ## Types both ways can write -/

namespace ClassRef

/-- The names a mention is made of. -/
def names : ClassRef → List String
  | named name | fullyQualified name | selfRef name => [name]
  | aliased other full => [other, full]
  | shortened short full => [short, full]

end ClassRef

/-- A root makes a word of anything but a bar. -/
theorem Text.isWord_rooted {name : String} (hbar : '|' ∉ name.toList) : IsWord (rooted name) := by
  have hroot : IsWord "\\" := ⟨by decide, by decide⟩
  refine hroot.append fun hmem => hbar ?_
  rw [unrooted, toList_dropLeading] at hmem
  exact (List.dropWhile_sublist _).subset hmem

namespace Ty

/-- Neither void nor iterable, `static` or intersection, and named by
words, if by a class. -/
def IsWritable (config : Config) : Ty → Prop
  | object ref => ∀ name ∈ ref.names, Text.IsWord name
  | closure => '|' ∉ config.closureClass.toList
  | void | iterable _ | staticRef _ | intersection _ => False
  | _ => True

/-- A type both ways of writing are made for. -/
structure Writable (config : Config) (t : Ty) : Prop where
  proper : t.UnionsProper
  words : t.Everywhere (IsWritable config)

variable {config : Config} {s t : Ty} {ts : List Ty}

theorem Writable.part (h : t.Writable config) (hs : s ∈ t.parts) : s.Writable config :=
  ⟨h.proper.part hs, h.words.part hs⟩

theorem Writable.item (h : (array t).Writable config) : t.Writable config :=
  h.part (by simp [parts])

theorem Writable.member (h : (union ts).Writable config) (ht : t ∈ ts) : t.Writable config :=
  h.part ht

theorem Writable.cases (h : t.Writable config) :
    t.isLeaf = true ∨ (∃ item, t = array item) ∨ ∃ ts, t = union ts := by
  have hhere := h.words.here
  cases t with
  | array item => exact .inr (.inl ⟨item, rfl⟩)
  | union ts => exact .inr (.inr ⟨ts, rfl⟩)
  | iterable _ | intersection _ => exact hhere.elim
  | _ => exact .inl rfl

/-- **Induction on such types**: from the item to the array, from the
members to the union. -/
theorem Writable.induction {P : ∀ t : Ty, t.Writable config → Prop}
    (leaf : ∀ t (h : t.Writable config), t.isLeaf = true → P t h)
    (array : ∀ item (h : (array item).Writable config), P item h.item → P (.array item) h)
    (union : ∀ ts (h : (union ts).Writable config), (∀ t (ht : t ∈ ts), P t (h.member ht)) →
      P (.union ts) h)
    (t : Ty) (h : t.Writable config) : P t h := by
  induction t using Ty.induction with
  | step t ih =>
    rcases h.cases with hleaf | ⟨item, rfl⟩ | ⟨ts, rfl⟩
    · exact leaf t h hleaf
    · exact array item h (ih item (by simp [parts]) h.item)
    · exact union ts h fun t ht => ih t ht (h.member ht)

end Ty

namespace Renderer

variable {m : Renderer} {t : Ty} {ts : List Ty}

/-! ## The short form -/

/-- What is done with a text adds no failure. -/
theorem map_eq_error_iff {ε α β : Type} {f : α → β} {r : Except ε α} {e : ε} :
    r.map f = .error e ↔ r = .error e := by
  cases r with
  | error e' => rw [Except.map, Except.error.injEq, Except.error.injEq]
  | ok a => simp [Except.map]

theorem map_eq_ok_iff {ε α β : Type} {f : α → β} {r : Except ε α} {b : β} :
    r.map f = .ok b ↔ ∃ a, r = .ok a ∧ f a = b := by
  cases r <;> simp [Except.map]

/-- The mark of an array of anything but a union is set in the text. -/
theorem docText_array (parent : Option Ty) (h : t.isUnion = false) :
    m.docText parent (.array t) = (m.docText parent t).map arrayText := by
  cases t with
  | union ts => cases h
  | _ => simp only [docText]

/-- What a type stands in makes no difference. -/
theorem docText_parent (m : Renderer) (parent : Option Ty) (t : Ty) :
    m.docText parent t = m.docText none t := by
  induction t using Ty.induction with
  | step t ih =>
    cases t with
    | array item =>
      rcases item.isUnion_or_eq_union with hitem | ⟨ts, rfl⟩
      · rw [docText_array _ hitem, docText_array _ hitem, ih item (by simp [Ty.parts])]
      · simp only [docText]
    | _ => simp only [docText]

theorem docTexts_parent (m : Renderer) (parent : Option Ty) (ts : List Ty) :
    m.docTexts parent ts = m.docTexts none ts := by
  induction ts with
  | nil => rw [docTexts, docTexts]
  | cons t ts ih => rw [docTexts, docTexts, docText_parent m parent, ih]

theorem docText_union (parent : Option Ty) (ts : List Ty) :
    m.docText parent (.union ts) = (m.docTexts none ts).map (joinDistinct "|") := by
  rw [docText]

/-- The marks of an array of a union are set behind the members. -/
theorem docText_array_union (parent : Option Ty) (ts : List Ty) :
    m.docText parent (.array (.union ts)) = (m.docTexts none ts).map arraysOf := by
  rw [docText, docTexts_parent]

theorem docTexts_eq_map {text : Ty → String} (hts : ∀ t ∈ ts, m.docText none t = .ok (text t)) :
    m.docTexts none ts = .ok (ts.map text) := by
  induction ts with
  | nil => rw [docTexts]; rfl
  | cons t ts ih =>
    have hrest := ih fun s hs => hts s (by simp [hs])
    rw [docTexts, hts t (by simp), hrest]
    rfl

/-! ## Doc types of types with parts -/

theorem docTypes_eq_map {doc : Ty → DocType} (hts : ∀ t ∈ ts, m.docType t = .ok (doc t)) :
    m.docTypes ts = .ok (ts.map doc) := by
  induction ts with
  | nil => rw [docTypes]; rfl
  | cons t ts ih =>
    have hrest := ih fun s hs => hts s (by simp [hs])
    rw [docTypes, hts t (by simp), hrest]
    rfl

theorem docType_array {d : DocType} (hdoc : m.docType t = .ok d) :
    m.docType (.array t) = .ok d.arrayOf := by
  rw [docType, hdoc]
  rfl

theorem docType_iterable {d : DocType} (hdoc : m.docType t = .ok d) :
    m.docType (.iterable t) = .ok d.arrayOf := by
  rw [docType, hdoc]
  rfl

variable {config : Config} {classes : Hierarchy}

theorem docType_union {doc : Ty → DocType}
    (hts : ∀ t ∈ ts, (standard config classes).docType t = .ok (doc t)) :
    (standard config classes).docType (.union ts) = .ok (.oneOf (ts.map doc)) := by
  rw [docType_standard_union, docTypes_eq_map hts]
  rfl

theorem docType_intersection {doc : Ty → DocType}
    (hts : ∀ t ∈ ts, (standard config classes).docType t = .ok (doc t)) :
    (standard config classes).docType (.intersection ts) = .ok (.allOf (ts.map doc)) := by
  rw [docType_standard_intersection, docTypes_eq_map hts]
  rfl

/-! ## Types without parts -/

/-- A class is documented by one of the names of its mention, as it is or
written from the root. -/
theorem exists_docName_eq (m : Renderer) (ref : ClassRef) :
    ∃ name ∈ ref.names, m.docName ref = name ∨ m.docName ref = Text.rooted name := by
  cases ref with
  | aliased other full => exact ⟨other, by simp [ClassRef.names], .inl rfl⟩
  | shortened short full => exact ⟨full, by simp [ClassRef.names], .inr rfl⟩
  | fullyQualified name => exact ⟨name, by simp [ClassRef.names], .inr rfl⟩
  | named name | selfRef name =>
    refine ⟨name, by simp [ClassRef.names], ?_⟩
    rw [docName]
    split
    · exact .inr rfl
    · exact .inl rfl

theorem isWord_docName {ref : ClassRef} (hnames : ∀ name ∈ ref.names, Text.IsWord name) :
    Text.IsWord (m.docName ref) := by
  obtain ⟨name, hname, heq | heq⟩ := exists_docName_eq m ref
  · exact heq ▸ hnames name hname
  · exact heq ▸ Text.isWord_rooted (hnames name hname).bar_not_mem

/-- Both ways write a type without parts as the same word. -/
theorem exists_word_of_isLeaf (hleaf : t.isLeaf = true) (hwritable : t.IsWritable config) :
    ∃ w, Text.IsWord w ∧ (standard config classes).docType t = .ok (.name w) ∧
      (standard config classes).docText none t = .ok w := by
  cases t with
  | object ref => exact ⟨_, isWord_docName hwritable, rfl, rfl⟩
  | closure => exact ⟨_, Text.isWord_rooted hwritable, rfl, rfl⟩
  | scalar s => exact ⟨s.name, by cases s <;> exact ⟨by decide, by decide⟩, rfl, rfl⟩
  | anyObject | callable | never | null | mixed | resource =>
    exact ⟨_, ⟨by decide, by decide⟩, rfl, rfl⟩
  | void | staticRef _ => cases hwritable
  | _ => cases hleaf

/-! ## Both ways have an answer -/

/-- Every such type has a doc type, and one without gaps. -/
theorem exists_docType_of_writable (h : t.Writable config) :
    ∃ d, (standard config classes).docType t = .ok d ∧ d.Sound := by
  induction t, h using Ty.Writable.induction with
  | leaf t h hleaf =>
    obtain ⟨w, hw, hdoc, -⟩ := exists_word_of_isLeaf hleaf h.words.here
    exact ⟨.name w, hdoc, .name hw.ne_empty⟩
  | array item h ih =>
    obtain ⟨d, hdoc, hd⟩ := ih
    exact ⟨d.arrayOf, docType_array hdoc, DocType.sound_arrayOf hd⟩
  | union ts h ih =>
    choose! doc hdoc hsound using ih
    refine ⟨.oneOf (ts.map doc), docType_union hdoc, DocType.sound_oneOf ?_ ?_⟩
    · simpa using h.proper.properUnion.ne_nil
    · intro d hd
      obtain ⟨s, hs, rfl⟩ := List.mem_map.1 hd
      exact hsound s hs

/-- And every such type has a short form. -/
theorem exists_docText_of_writable (h : t.Writable config) :
    ∃ s, (standard config classes).docText none t = .ok s := by
  induction t, h using Ty.Writable.induction with
  | leaf t h hleaf =>
    obtain ⟨w, -, -, htext⟩ := exists_word_of_isLeaf hleaf h.words.here
    exact ⟨w, htext⟩
  | array item h ih =>
    obtain ⟨text, htext⟩ := ih
    rcases item.isUnion_or_eq_union with hitem | ⟨ts, rfl⟩
    · exact ⟨arrayText text, by rw [docText_array _ hitem, htext]; rfl⟩
    · -- the short form of the union is of no use here, only that its members have one
      rw [docText_union] at htext
      obtain ⟨texts, htexts, -⟩ := map_eq_ok_iff.1 htext
      exact ⟨arraysOf texts, by rw [docText_array_union, htexts]; rfl⟩
  | union ts h ih =>
    choose! text htext using ih
    exact ⟨joinDistinct "|" (ts.map text), by rw [docText_union, docTexts_eq_map htext]; rfl⟩

/-! ## Where they agree -/

/-- Both ways write the type, and write the same. -/
def WrittenAlike (m : Renderer) (t : Ty) : Prop :=
  ∃ d, m.docType t = .ok d ∧ m.docText none t = .ok d.text

/-- In a union, members that look alike are documented alike; below an
array, members are no unions once they are documented. -/
def Unambiguous (m : Renderer) : Ty → Prop
  | .union ts => ∀ s ∈ ts, ∀ t ∈ ts, m.docText none s = m.docText none t → m.docType s = m.docType t
  | .array (.union ts) => ∀ t ∈ ts, ∀ d, m.docType t = .ok d → d.isUnion = false
  | _ => True

theorem unambiguous_of_isLeaf (hleaf : t.isLeaf = true) : m.Unambiguous t := by
  cases t <;> trivial

theorem unambiguous_array (hitem : t.isUnion = false) : m.Unambiguous (.array t) := by
  cases t <;> trivial

/-- Two answers agree if the one is the text of the other. -/
theorem writtenAlike_iff {d : DocType} {s : String} (hdoc : m.docType t = .ok d)
    (htext : m.docText none t = .ok s) : m.WrittenAlike t ↔ s = d.text := by
  unfold WrittenAlike
  rw [hdoc, htext]
  constructor
  · rintro ⟨e, hd, hs⟩
    rw [Except.ok.inj hd]
    exact Except.ok.inj hs
  · intro hs
    exact ⟨d, rfl, by rw [hs]⟩

/-- The types of a list are written alike, as these doc types. -/
structure Documents (m : Renderer) (doc : Ty → DocType) (ts : List Ty) : Prop where
  docType_eq : ∀ t ∈ ts, m.docType t = .ok (doc t)
  docText_eq : ∀ t ∈ ts, m.docText none t = .ok (doc t).text
  sound : ∀ d ∈ ts.map doc, d.Sound

theorem exists_documents (hts : ∀ t ∈ ts, t.Writable config)
    (halike : ∀ t ∈ ts, (standard config classes).WrittenAlike t) :
    ∃ doc, (standard config classes).Documents doc ts := by
  choose! doc hdoc htext using halike
  refine ⟨doc, hdoc, htext, fun d hd => ?_⟩
  obtain ⟨t, ht, rfl⟩ := List.mem_map.1 hd
  have hsome : ∃ d, (standard config classes).docType t = .ok d ∧ d.Sound :=
    exists_docType_of_writable (hts t ht)
  obtain ⟨d, hd, hsound⟩ := hsome
  obtain rfl : doc t = d := Except.ok.inj ((hdoc t ht).symm.trans hd)
  exact hsound

section Documents

variable {doc : Ty → DocType}

theorem Documents.docTexts_eq (h : m.Documents doc ts) :
    m.docTexts none ts = .ok ((ts.map doc).map DocType.text) := by
  rw [List.map_map]
  exact docTexts_eq_map h.docText_eq

theorem Documents.unambiguous_union_iff (h : m.Documents doc ts) :
    m.Unambiguous (.union ts) ↔
      ∀ d ∈ ts.map doc, ∀ e ∈ ts.map doc, d.text = e.text → d = e := by
  rw [Unambiguous]
  simp only [List.forall_mem_map]
  refine forall₂_congr fun s hs => forall₂_congr fun t ht => ?_
  rw [h.docType_eq s hs, h.docText_eq s hs, h.docType_eq t ht, h.docText_eq t ht,
    Except.ok.injEq, Except.ok.injEq]

theorem Documents.unambiguous_array_iff (h : m.Documents doc ts) :
    m.Unambiguous (.array (.union ts)) ↔ ∀ d ∈ ts.map doc, d.isUnion = false := by
  rw [Unambiguous]
  simp only [List.forall_mem_map]
  refine forall₂_congr fun t ht => ?_
  rw [h.docType_eq t ht]
  constructor
  · intro hsingle
    exact hsingle _ rfl
  · rintro hsingle d hd
    rw [← Except.ok.inj hd]
    exact hsingle

/-- A union is written alike if its members are and none is mistaken for
another. -/
theorem Documents.writtenAlike_union_iff (h : (standard config classes).Documents doc ts)
    (hne : ts ≠ []) : (standard config classes).WrittenAlike (.union ts) ↔
      (standard config classes).Unambiguous (.union ts) := by
  have htext : (standard config classes).docText none (.union ts) =
      .ok (joinDistinct "|" ((ts.map doc).map DocType.text)) := by
    rw [docText_union, h.docTexts_eq]
    rfl
  rw [writtenAlike_iff (docType_union h.docType_eq) htext, h.unambiguous_union_iff]
  exact DocType.text_oneOf_eq_iff (by simpa using hne) h.sound

/-- An array of such a union is written alike if no mark is to be moved
inside a member. -/
theorem Documents.writtenAlike_array_iff (h : (standard config classes).Documents doc ts)
    (hne : ts ≠ []) (hclear : (standard config classes).Unambiguous (.union ts)) :
    (standard config classes).WrittenAlike (.array (.union ts)) ↔
      (standard config classes).Unambiguous (.array (.union ts)) := by
  have hdoc := docType_array (docType_union h.docType_eq)
  have htext : (standard config classes).docText none (.array (.union ts)) =
      .ok (arraysOf ((ts.map doc).map DocType.text)) := by
    rw [docText_array_union, h.docTexts_eq]
    rfl
  rw [h.unambiguous_union_iff] at hclear
  rw [writtenAlike_iff hdoc htext, h.unambiguous_array_iff]
  exact DocType.text_arrayOf_oneOf_eq_iff (by simpa using hne) h.sound hclear

end Documents

/-! ## Everywhere -/

/-- If no member has a doc type with alternatives, each gets one mark. -/
theorem exists_isFlat_docType_array_union (hne : ts ≠ [])
    (hts : ∀ t ∈ ts, ∃ d, (standard config classes).docType t = .ok d ∧ d.IsFlat)
    (hclear : (standard config classes).Unambiguous (.array (.union ts))) :
    ∃ d, (standard config classes).docType (.array (.union ts)) = .ok d ∧ d.IsFlat := by
  choose! doc hdoc hflat using hts
  have hwords : ∀ d ∈ ts.map doc, d.IsWord := by
    intro d hd
    obtain ⟨t, ht, rfl⟩ := List.mem_map.1 hd
    exact (hflat t ht).isWord (hclear t ht _ (hdoc t ht))
  have hunion : (DocType.oneOf (ts.map doc)).IsFlat :=
    DocType.isFlat_oneOf (by simpa using hne) hwords
  exact ⟨_, docType_array (docType_union hdoc), hunion.arrayOf⟩

/-- In an unambiguous type, what is no union is documented by a word or by
a union of words. -/
theorem exists_isFlat_docType (h : t.Writable config)
    (hclear : t.Everywhere (standard config classes).Unambiguous) :
    ∀ s ∈ t.unionMembers, ∃ d, (standard config classes).docType s = .ok d ∧ d.IsFlat := by
  -- over the members, since an array of a union needs them and not the union's own doc type
  induction t, h using Ty.Writable.induction with
  | leaf t h hleaf =>
    obtain ⟨w, hw, hdoc, -⟩ : ∃ w, Text.IsWord w ∧
        (standard config classes).docType t = .ok (.name w) ∧ _ :=
      exists_word_of_isLeaf hleaf h.words.here
    have hsingle : t.isUnion = false := by cases t <;> trivial
    rw [Ty.unionMembers_of_isUnion hsingle, List.forall_mem_singleton]
    exact ⟨.name w, hdoc, .word ⟨rfl, by rw [DocType.text]; exact hw⟩⟩
  | array item h ih =>
    have hitem := ih (hclear.part (by simp [Ty.parts]))
    rw [Ty.unionMembers_of_isUnion rfl, List.forall_mem_singleton]
    rcases item.isUnion_or_eq_union with hsingle | ⟨ts, rfl⟩
    · rw [Ty.unionMembers_of_isUnion hsingle, List.forall_mem_singleton] at hitem
      obtain ⟨d, hdoc, hd⟩ := hitem
      exact ⟨d.arrayOf, docType_array hdoc, hd.arrayOf⟩
    · exact exists_isFlat_docType_array_union h.item.proper.properUnion.ne_nil hitem hclear.here
  | union ts h ih =>
    intro s hs
    have hself := Ty.unionMembers_of_isUnion (h.proper.properUnion.flat s hs)
    exact ih s hs (hclear.part hs) s (by simp [hself])

/-- An array of anything but a union is written alike where its item is and
nothing in it is ambiguous. -/
theorem writtenAlike_array (h : t.Writable config) (hsingle : t.isUnion = false)
    (halike : (standard config classes).WrittenAlike t)
    (hclear : t.Everywhere (standard config classes).Unambiguous) :
    (standard config classes).WrittenAlike (.array t) := by
  obtain ⟨d, hdoc, htext⟩ := halike
  have hmember : t ∈ t.unionMembers := by simp [Ty.unionMembers_of_isUnion hsingle]
  obtain ⟨e, hsame, hflat⟩ := exists_isFlat_docType h hclear t hmember
  obtain rfl : d = e := Except.ok.inj (hdoc.symm.trans hsame)
  refine ⟨d.arrayOf, docType_array hdoc, ?_⟩
  rw [docText_array none hsingle, htext, ← hflat.arrayText_text]
  rfl

/-- **One step**: where both ways agree on the parts and these are
unambiguous, they agree on the type if it is unambiguous itself. -/
theorem writtenAlike_iff_unambiguous (h : t.Writable config)
    (halike : ∀ s ∈ t.parts, s.Everywhere (standard config classes).WrittenAlike)
    (hclear : ∀ s ∈ t.parts, s.Everywhere (standard config classes).Unambiguous) :
    (standard config classes).WrittenAlike t ↔ (standard config classes).Unambiguous t := by
  rcases h.cases with hleaf | ⟨item, rfl⟩ | ⟨ts, rfl⟩
  · obtain ⟨w, -, hdoc, htext⟩ : ∃ w, Text.IsWord w ∧
        (standard config classes).docType t = .ok (.name w) ∧
        (standard config classes).docText none t = .ok w :=
      exists_word_of_isLeaf hleaf h.words.here
    refine iff_of_true ⟨.name w, hdoc, ?_⟩ (unambiguous_of_isLeaf hleaf)
    rw [htext, DocType.text]
  · rw [Ty.parts, List.forall_mem_singleton] at halike hclear
    rcases item.isUnion_or_eq_union with hsingle | ⟨ts, rfl⟩
    · exact iff_of_true (writtenAlike_array h.item hsingle halike.here hclear)
        (unambiguous_array hsingle)
    · obtain ⟨doc, hdoc⟩ := exists_documents (fun t ht => h.item.member ht)
        fun t ht => (halike.part ht).here
      exact hdoc.writtenAlike_array_iff h.item.proper.properUnion.ne_nil hclear.here
  · obtain ⟨doc, hdoc⟩ := exists_documents (fun t ht => h.member ht) fun t ht => (halike t ht).here
    exact hdoc.writtenAlike_union_iff h.proper.properUnion.ne_nil

/-- **Both ways of writing a type agree, on it and on all that occurs in
it, exactly if all of this is unambiguous.** The short form has an answer
in any case, whatever the type stands in. -/
theorem writtenAlike_everywhere_iff (config : Config) (classes : Hierarchy) {t : Ty}
    (hbuilt : t.Built) (hwords : t.Everywhere (Ty.IsWritable config)) :
    (∃ s, ∀ parent, (standard config classes).docText parent t = .ok s) ∧
    (t.Everywhere (standard config classes).WrittenAlike ↔
      t.Everywhere (standard config classes).Unambiguous) := by
  have h : t.Writable config := ⟨hbuilt.normal.1, hwords⟩
  constructor
  · obtain ⟨s, hs⟩ := exists_docText_of_writable h
    exact ⟨s, fun parent => by rw [docText_parent, hs]⟩
  · clear hbuilt hwords
    induction t using Ty.induction with
    | step t ih =>
      have hparts : (∀ s ∈ t.parts, s.Everywhere (standard config classes).WrittenAlike) ↔
          ∀ s ∈ t.parts, s.Everywhere (standard config classes).Unambiguous :=
        forall₂_congr fun s hs => ih s hs (h.part hs)
      rw [Ty.everywhere_iff, Ty.everywhere_iff, hparts]
      refine and_congr_left fun hclear => ?_
      exact writtenAlike_iff_unambiguous h (hparts.2 hclear) hclear

/-- Arrays of arrays, all of numbers or all of users. -/
def tables : Ty := .array (.array (.unionOf [.scalar .int, .object (.named "User")]))

theorem built_tables : tables.Built := .array (.array (.unionOf_leaves rfl))

/-- What holds of the four types in it holds everywhere in it. -/
theorem everywhere_tables {P : Ty → Prop} (hint : P (.scalar .int))
    (huser : P (.object (.named "User")))
    (hunion : P (.union [.scalar .int, .object (.named "User")]))
    (harray : P (.array (.union [.scalar .int, .object (.named "User")]))) (hall : P tables) :
    tables.Everywhere P := by
  refine Ty.everywhere_array.2 ⟨hall, Ty.everywhere_array.2 ⟨harray, ?_⟩⟩
  refine Ty.everywhere_union.2 ⟨hunion, fun t ht => ?_⟩
  simp only [List.mem_cons, List.not_mem_nil, or_false] at ht
  rcases ht with rfl | rfl
  · exact Ty.everywhere_of_parts_eq_nil rfl hint
  · exact Ty.everywhere_of_parts_eq_nil rfl huser

/-- Nothing in them is ambiguous, so both ways agree. -/
theorem writtenAlike_everywhere_tables :
    tables.Built ∧ tables.Everywhere (Ty.IsWritable {}) ∧
    (∃ s, ∀ parent, (standard {} .empty).docText parent tables = .ok s) ∧
    tables.Everywhere (standard {} .empty).WrittenAlike := by
  have hwords : tables.Everywhere (Ty.IsWritable {}) := by
    have huser : Text.IsWord "User" := ⟨by decide, by decide⟩
    refine everywhere_tables trivial ?_ trivial trivial trivial
    simpa [Ty.IsWritable, ClassRef.names] using huser
  have hclear : tables.Everywhere (standard {} .empty).Unambiguous := by
    refine everywhere_tables trivial trivial ?_ ?_ trivial
    · intro s hs t ht hsame
      simp only [List.mem_cons, List.not_mem_nil, or_false] at hs ht
      rcases hs with rfl | rfl <;> rcases ht with rfl | rfl
      · rfl
      · exact absurd (Except.ok.inj hsame) (by decide)
      · exact absurd (Except.ok.inj hsame) (by decide)
      · rfl
    · intro t ht d hd
      simp only [List.mem_cons, List.not_mem_nil, or_false] at ht
      rcases ht with rfl | rfl <;> cases hd <;> rfl
  obtain ⟨htext, halike⟩ := writtenAlike_everywhere_iff {} .empty built_tables hwords
  exact ⟨built_tables, hwords, htext, halike.2 hclear⟩

/-- Here arrays of numbers or of texts are themselves members of a union. -/
def tablesOrFlags : Ty :=
  .array (.unionOf [.array (.unionOf [.scalar .int, .scalar .string]), .scalar .bool])

theorem built_tablesOrFlags : tablesOrFlags.Built := by
  refine .array (.unionOf fun t ht => ?_)
  simp only [List.mem_cons, List.not_mem_nil, or_false] at ht
  rcases ht with rfl | rfl
  · exact .array (.unionOf_leaves rfl)
  · exact .leaf rfl

/-- What holds of scalars and of the four types put together from them holds
everywhere in it. -/
theorem everywhere_tablesOrFlags {P : Ty → Prop} (hscalar : ∀ s, P (.scalar s))
    (hrow : P (.union [.scalar .int, .scalar .string]))
    (harray : P (.array (.union [.scalar .int, .scalar .string])))
    (hmembers : P (.union [.array (.union [.scalar .int, .scalar .string]), .scalar .bool]))
    (hall : P tablesOrFlags) : tablesOrFlags.Everywhere P := by
  refine Ty.everywhere_array.2 ⟨hall, Ty.everywhere_union.2 ⟨hmembers, fun t ht => ?_⟩⟩
  simp only [List.mem_cons, List.not_mem_nil, or_false] at ht
  rcases ht with rfl | rfl
  · refine Ty.everywhere_array.2 ⟨harray, Ty.everywhere_union.2 ⟨hrow, fun t ht => ?_⟩⟩
    simp only [List.mem_cons, List.not_mem_nil, or_false] at ht
    rcases ht with rfl | rfl <;> exact Ty.everywhere_of_parts_eq_nil rfl (hscalar _)
  · exact Ty.everywhere_of_parts_eq_nil rfl (hscalar _)

theorem isWritable_tablesOrFlags : tablesOrFlags.Everywhere (Ty.IsWritable {}) :=
  everywhere_tablesOrFlags (fun _ => trivial) trivial trivial trivial trivial

/-- **The two ways do not always agree**: of the three alternatives, the
short form marks the first once where the doc type marks it twice. -/
theorem not_writtenAlike_tablesOrFlags :
    tablesOrFlags.Built ∧ tablesOrFlags.Everywhere (Ty.IsWritable {}) ∧
    (standard {} .empty).docText none tablesOrFlags = .ok "int[]|string[][]|bool[]" ∧
    ((standard {} .empty).docType tablesOrFlags).map DocType.text =
      .ok "int[][]|string[][]|bool[]" ∧
    ¬ (standard {} .empty).WrittenAlike tablesOrFlags := by
  have hshort : (standard {} .empty).docText none tablesOrFlags =
      .ok "int[]|string[][]|bool[]" := rfl
  have hlong : ((standard {} .empty).docType tablesOrFlags).map DocType.text =
      .ok "int[][]|string[][]|bool[]" := rfl
  refine ⟨built_tablesOrFlags, isWritable_tablesOrFlags, hshort, hlong, ?_⟩
  rintro ⟨d, hdoc, htext⟩
  rw [hdoc] at hlong
  have hsame := (Except.ok.inj hlong).symm.trans (Except.ok.inj (htext.symm.trans hshort))
  exact absurd hsame (by decide)

end Renderer

end TypeScribe

import TypeScribe.Proofs.Rendering.DocFailure
/-!
# Unions before they are normalised

A union can be put together without the normalising constructor, and then
a member may stand in it twice, or alone. Doc comments do not show it. A
repeated member is dropped by both ways of writing, though only after it
was rendered, when members that were different may have become equal as
well; and a member left alone is written as it would be without the union.
So a list of types that are no unions is documented alike by the raw union
and by the normalised one (`documentedAlike_unionOf`).
-/

namespace TypeScribe

namespace DocType

/-- One of several is settled by the first occurrences. -/
theorem oneOf_congr {ds es : List DocType} (h : ds.eraseDups = es.eraseDups) :
    oneOf ds = oneOf es := by
  rw [oneOf, oneOf, h]

theorem oneOf_singleton (d : DocType) : oneOf [d] = d := by
  simp [oneOf, List.eraseDups_cons]

end DocType

namespace Ty

variable {α : Type} {F : Ty → α} {ts : List Ty}

/-- **A function that sees neither repeated members nor a union around a
single type** takes the raw and the normalised union of types that are no
unions to one value. -/
theorem map_unionOf_eq (hrepeated : ∀ ts, F (union ts.eraseDups) = F (union ts))
    (hsingle : ∀ t, F (union [t]) = F t) (hne : ts ≠ []) (hflat : ∀ t ∈ ts, t.isUnion = false) :
    F (unionOf ts) = F (union ts) := by
  have hcases := unionOf_cases ts
  rw [flatMap_unionMembers hflat] at hcases
  rcases hcases with ⟨hnone, -⟩ | ⟨t, hone, heq⟩ | ⟨-, heq⟩
  · exact absurd (Distinct.eraseDups_eq_nil_iff.1 hnone) hne
  · rw [heq, ← hrepeated, hone, hsingle]
  · rw [heq, hrepeated]

end Ty

namespace Renderer

variable {m : Renderer} {ts : List Ty} {config : Config} {classes : Hierarchy}

/-! ## Doc types -/

theorem docType_union_eraseDups (ts : List Ty) :
    (standard config classes).docType (.union ts.eraseDups) =
      (standard config classes).docType (.union ts) := by
  choose doc hdoc using exists_docType_standard config classes
  have hfirsts : (ts.eraseDups.map doc).eraseDups = (ts.map doc).eraseDups :=
    Distinct.eraseDups_map_eraseDups doc ts
  rw [docType_union fun t _ => hdoc t, docType_union fun t _ => hdoc t,
    DocType.oneOf_congr hfirsts]

theorem docType_union_singleton (t : Ty) :
    (standard config classes).docType (.union [t]) = (standard config classes).docType t := by
  choose doc hdoc using exists_docType_standard config classes
  rw [docType_union fun t _ => hdoc t, List.map_singleton, DocType.oneOf_singleton, hdoc]

/-! ## The short form -/

/-- Members in a row are settled by their first occurrences. -/
theorem joinDistinct_congr (sep : String) {texts texts' : List String}
    (h : texts.eraseDups = texts'.eraseDups) :
    joinDistinct sep texts = joinDistinct sep texts' := by
  rw [joinDistinct, joinDistinct, h]

/-- A text that is left alone is kept, be it empty or not. -/
theorem joinDistinct_singleton (sep s : String) : joinDistinct sep [s] = s := by
  have hone : [s].eraseDups = [s] := by simp [List.eraseDups_cons]
  rw [joinDistinct, hone]
  by_cases hs : s = ""
  · simp [hs]
  · simp [hs]

/-- Without a `static` to come to, all types have texts. -/
theorem exists_texts (hts : ∀ t ∈ ts, ¬ t.ReachesStatic) :
    ∃ text : Ty → String, ∀ t ∈ ts, m.docText none t = .ok (text t) := by
  have hall : ∀ t ∈ ts, ∃ s, m.docText none t = .ok s := by
    intro t ht
    cases htext : m.docText none t with
    | ok s => exact ⟨s, rfl⟩
    | error e => exact absurd (docText_eq_error_iff.1 htext).2 (hts t ht)
  choose! text htext using hall
  exact ⟨text, htext⟩

theorem docText_union_eraseDups (parent : Option Ty) (ts : List Ty) :
    m.docText parent (.union ts.eraseDups) = m.docText parent (.union ts) := by
  by_cases hreach : ∃ t ∈ ts, t.ReachesStatic
  · -- the failure is the same, whichever copy of the member it comes from
    have hall : (Ty.union ts).ReachesStatic := Ty.reachesStatic_union.2 hreach
    have hkept : (Ty.union ts.eraseDups).ReachesStatic := by
      rw [Ty.reachesStatic_union]
      simpa only [List.mem_eraseDups] using hreach
    rw [docText_eq_error_iff.2 ⟨rfl, hkept⟩, docText_eq_error_iff.2 ⟨rfl, hall⟩]
  · obtain ⟨text, htext⟩ := exists_texts (m := m) (by simpa using hreach)
    have hkept : ∀ t ∈ ts.eraseDups, m.docText none t = .ok (text t) := fun t ht =>
      htext t (List.mem_eraseDups.1 ht)
    have hfirsts : (ts.eraseDups.map text).eraseDups = (ts.map text).eraseDups :=
      Distinct.eraseDups_map_eraseDups text ts
    rw [docText_union, docText_union, docTexts_eq_map hkept, docTexts_eq_map htext, Except.map,
      Except.map, joinDistinct_congr "|" hfirsts]

theorem docText_union_singleton (parent : Option Ty) (t : Ty) :
    m.docText parent (.union [t]) = m.docText parent t := by
  rw [docText_union, docText_parent m parent t, docTexts, docTexts]
  cases m.docText none t with
  | error e => rfl
  | ok s =>
    change Except.ok (joinDistinct "|" [s]) = .ok s
    rw [joinDistinct_singleton]

/-! ## Both ways -/

/-- **Doc comments do not see raw duplicates.** From the same types, none
of them a union, the raw and the normalised union are documented alike, as
doc types by the default rules and in the short form for every place, down
to the failures. -/
theorem documentedAlike_unionOf (config : Config) (classes : Hierarchy) {ts : List Ty}
    (hne : ts ≠ []) (hflat : ∀ t ∈ ts, t.isUnion = false) :
    (standard config classes).docType (.union ts) =
      (standard config classes).docType (.unionOf ts) ∧
    ∀ parent, (standard config classes).docText parent (.union ts) =
      (standard config classes).docText parent (.unionOf ts) := by
  refine ⟨?_, fun parent => ?_⟩
  · exact (Ty.map_unionOf_eq docType_union_eraseDups docType_union_singleton hne hflat).symm
  · exact (Ty.map_unionOf_eq (docText_union_eraseDups parent) (docText_union_singleton parent) hne
      hflat).symm

/-- Twice nothing is nothing: the member left alone has an empty text, which
a union would leave out. -/
theorem documentedAlike_unionOf_void :
    [Ty.void, .void] ≠ [] ∧ (∀ t ∈ [Ty.void, .void], t.isUnion = false) ∧
    Ty.unionOf [.void, .void] = .void ∧
    (standard {} .empty).docType (.union [.void, .void]) = .ok (.name "void") ∧
    (standard {} .empty).docText none (.union [.void, .void]) = .ok "" := by
  have hne : [Ty.void, .void] ≠ [] := List.cons_ne_nil _ _
  have hflat : ∀ t ∈ [Ty.void, .void], t.isUnion = false := by simp [Ty.isUnion]
  have hone : Ty.unionOf [.void, .void] = .void := rfl
  obtain ⟨hdoc, htext⟩ := documentedAlike_unionOf {} .empty hne hflat
  refine ⟨hne, hflat, hone, ?_, ?_⟩
  · rw [hdoc, hone]
    rfl
  · rw [htext, hone]
    rfl

end Renderer

end TypeScribe

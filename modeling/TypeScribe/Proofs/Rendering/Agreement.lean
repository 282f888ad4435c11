import TypeScribe.Proofs.Rendering.Wording
import TypeScribe.Rendering.Document
import TypeScribe.Rendering.Hint
/-!
# Renderers that agree

Rendering asks a renderer for little: which rule is for a type, which
features hints may use, what the two classes are called that have a
meaning of their own, and what is known of the other classes. Renderers
that agree on this render every type alike, in all three ways and with the
same failures (`Agree.docType_eq`, `AgreeOnWords.docText_eq`,
`Agree.hint_eq`). How many rules there are besides, and which version it
is that has the features, makes no difference.
-/

namespace TypeScribe

namespace Renderer

variable {m m' : Renderer} {t : Ty} {ts : List Ty}

/-- What the short form asks a renderer for. -/
structure AgreeOnWords (m m' : Renderer) : Prop where
  classes : m.classes = m'.classes
  closureClass : m.config.closureClass = m'.config.closureClass
  supports : ∀ f, m.supports f = m'.supports f

/-- All that rendering asks a renderer for. -/
structure Agree (m m' : Renderer) : Prop extends AgreeOnWords m m' where
  iterableMarker : m.config.iterableMarker = m'.config.iterableMarker
  ruleFor? : ∀ t, m.ruleFor? t = m'.ruleFor? t

namespace AgreeOnWords

theorem docName_eq (h : AgreeOnWords m m') (ref : ClassRef) : m.docName ref = m'.docName ref := by
  cases ref <;> simp only [docName, h.classes]

theorem closureName_eq (h : AgreeOnWords m m') : m.closureName = m'.closureName := by
  rw [closureName, closureName, h.closureClass]

end AgreeOnWords

/-! ## The short form -/

theorem docTexts_congr (hts : ∀ t ∈ ts, m.docText none t = m'.docText none t) :
    m.docTexts none ts = m'.docTexts none ts := by
  induction ts with
  | nil => rw [docTexts, docTexts]
  | cons t ts ih =>
    have hrest := ih fun s hs => hts s (by simp [hs])
    rw [docTexts, docTexts, hts t (by simp), hrest]

/-- The short forms of a type and of its parts agree. -/
theorem AgreeOnWords.docText_parts_eq (h : AgreeOnWords m m') (t : Ty) :
    m.docText none t = m'.docText none t ∧ ∀ s ∈ t.parts, m.docText none s = m'.docText none s := by
  induction t using Ty.induction with
  | step t ih =>
    have hparts : ∀ s ∈ t.parts, m.docText none s = m'.docText none s := fun s hs => (ih s hs).1
    refine ⟨?_, hparts⟩
    cases t with
    | union ts =>
      have hmembers : m.docTexts none ts = m'.docTexts none ts := docTexts_congr hparts
      rw [docText, docText, hmembers]
    | intersection ts =>
      have hmembers : m.docTexts none ts = m'.docTexts none ts := docTexts_congr hparts
      rw [docText, docText, hmembers]
    | array item =>
      rcases item.isUnion_or_eq_union with hitem | ⟨ts, rfl⟩
      · rw [docText_array none hitem, docText_array none hitem, hparts item (by simp [Ty.parts])]
      · -- here the parts of the part are asked, which is why they are part of the statement
        have hmembers : m.docTexts none ts = m'.docTexts none ts :=
          docTexts_congr (ih (.union ts) (by simp [Ty.parts])).2
        rw [docText_array_union, docText_array_union, hmembers]
    | object ref => rw [docText, docText, h.docName_eq]
    | closure => rw [docText, docText, h.closureName_eq]
    | void | iterable _ => rw [docText, docText, h.supports]
    | _ => rw [docText, docText]

/-- **The short form knows no rules**, and of the version only the
features. -/
theorem AgreeOnWords.docText_eq (h : AgreeOnWords m m') (parent : Option Ty) (t : Ty) :
    m.docText parent t = m'.docText parent t := by
  rw [docText_parent m, docText_parent m', (h.docText_parts_eq t).1]

/-! ## Doc types -/

theorem docTypes_congr (hts : ∀ t ∈ ts, m.docType t = m'.docType t) :
    m.docTypes ts = m'.docTypes ts := by
  induction ts with
  | nil => rw [docTypes, docTypes]
  | cons t ts ih =>
    have hrest := ih fun s hs => hts s (by simp [hs])
    rw [docTypes, docTypes, hts t (by simp), hrest]

theorem Agree.docTypeFrom_eq (h : Agree m m') (t : Ty)
    (members : Except RenderError (List DocType)) :
    m.docTypeFrom t members = m'.docTypeFrom t members := by
  have hplain : m.plainDocType members t = m'.plainDocType members t := by
    cases t <;> simp only [plainDocType, h.docName_eq, h.closureName_eq]
  rw [docTypeFrom, docTypeFrom, h.ruleFor?, hplain]

/-- **Doc types agree.** -/
theorem Agree.docType_eq (h : Agree m m') (t : Ty) : m.docType t = m'.docType t := by
  induction t using Ty.induction with
  | step t ih =>
    cases t with
    | array item => rw [docType, docType, ih item (by simp [Ty.parts])]
    | iterable item => rw [docType, docType, ih item (by simp [Ty.parts])]
    | union ts =>
      have hmembers : m.docTypes ts = m'.docTypes ts := docTypes_congr ih
      rw [docType, docType, hmembers, h.docTypeFrom_eq]
    | intersection ts =>
      have hmembers : m.docTypes ts = m'.docTypes ts := docTypes_congr ih
      rw [docType, docType, hmembers, h.docTypeFrom_eq]
    | _ => simp only [docType, h.docTypeFrom_eq]

/-! ## Hints -/

/-- A rule asks for features only. -/
theorem Agree.hint?_eq (h : Agree m m') (r : Rule) (t : Ty) :
    r.hint? m.config.version t = r.hint? m'.config.version t := by
  have hhas : ∀ f, m.config.version.has f = m'.config.version.has f := h.supports
  cases r <;> simp only [Rule.hint?, hhas]

theorem Agree.arrayUnion?_eq (h : Agree m m') (ts : List Ty) :
    m.arrayUnion? ts = m'.arrayUnion? ts := by
  have hmarker : ∀ ref, m.isIterableMarker ref = m'.isIterableMarker ref := by
    intro ref
    rw [isIterableMarker, isIterableMarker, h.iterableMarker]
  have hlike : m.arrayLike? = m'.arrayLike? := by
    funext t
    cases t <;> simp only [arrayLike?, hmarker]
  rw [arrayUnion?, arrayUnion?, hlike]

theorem Agree.commonAncestor?_eq (h : Agree m m') (ts : List Ty) :
    m.commonAncestor? ts = m'.commonAncestor? ts := by
  rw [commonAncestor?, commonAncestor?, h.classes]

theorem Agree.unionHint_eq (h : Agree m m') (members : List (Ty × Outcome)) :
    m.unionHint members = m'.unionHint members := by
  simp only [unionHint, h.arrayUnion?_eq, h.commonAncestor?_eq, h.supports]

theorem Agree.plainHint_eq (h : Agree m m') (slot : Slot) (t : Ty) :
    m.plainHint slot t = m'.plainHint slot t := by
  cases t <;> simp only [plainHint, h.supports]

/-- **Hints agree**, for every place. -/
theorem Agree.hint_eq (h : Agree m m') (slot : Slot) (t : Ty) :
    m.hint slot t = m'.hint slot t := by
  induction t using Ty.induction with
  | step t ih =>
    cases t with
    | void => simp only [hint, voidHint?, h.supports]
    | union ts =>
      have hmembers : m.withHints slot ts = m'.withHints slot ts := by
        rw [withHints_eq_map, withHints_eq_map]
        exact List.map_congr_left fun t ht => by rw [ih t ht]
      simp only [hint, h.ruleFor?, h.hint?_eq, hmembers, h.unionHint_eq]
    | object ref =>
      cases ref <;> simp only [hint, h.ruleFor?, h.hint?_eq, h.plainHint_eq]
    | _ => simp only [hint, h.ruleFor?, h.hint?_eq, h.plainHint_eq]

/-! ## All three ways -/

/-- Two renderers that no type tells apart, be it by what they make of it
or by how they fail. -/
structure RendersAlike (m m' : Renderer) : Prop where
  docType : ∀ t, m.docType t = m'.docType t
  docText : ∀ parent t, m.docText parent t = m'.docText parent t
  hint : ∀ slot t, m.hint slot t = m'.hint slot t

/-- **Renderers that agree render alike.** -/
theorem Agree.rendersAlike (h : Agree m m') : RendersAlike m m' where
  docType := h.docType_eq
  docText := h.docText_eq
  hint := h.hint_eq

end Renderer

end TypeScribe

import TypeScribe.Proofs.Rendering.Agreement
/-!
# When a doc comment fails

The default rules and what the renderer knows itself leave no type without
a doc type (`exists_docType_standard`). The short form has one gap: it
cannot write `static`, whatever the rules are. It looks for it wherever
the text of a type is put together from the texts of others, which is in
arrays, unions and intersections, but not in iterables, whose items it
never looks at. `docText_eq_error_iff` says that this is the only failure
and when it occurs, and `outcome_docText` that nothing but settings,
classes and the type itself has a say in what comes out.
-/

namespace TypeScribe

namespace Ty

/-! ## Where the short form looks -/

/-- The types whose texts the short form of a type is put together
from. -/
def writtenParts : Ty → List Ty
  | array t => [t]
  | union ts | intersection ts => ts
  | _ => []

/-- Whoever writes the one type in the short form comes to the other. -/
def WrittenIn (s t : Ty) : Prop := Relation.ReflTransGen (fun a b => a ∈ b.writtenParts) s t

/-- The short form of the type comes to a `static`. -/
def ReachesStatic (t : Ty) : Prop := ∃ cls, (staticRef cls).WrittenIn t

variable {t : Ty} {ts : List Ty}

/-- **The short form comes to a `static` at once or in a part.** -/
theorem reachesStatic_iff :
    t.ReachesStatic ↔ (∃ cls, t = staticRef cls) ∨ ∃ s ∈ t.writtenParts, s.ReachesStatic := by
  constructor
  · rintro ⟨cls, hreach⟩
    rcases hreach.cases_tail with rfl | ⟨s, hs, hpart⟩
    · exact .inl ⟨cls, rfl⟩
    · exact .inr ⟨s, hpart, cls, hs⟩
  · rintro (⟨cls, rfl⟩ | ⟨s, hpart, cls, hs⟩)
    · exact ⟨cls, .refl⟩
    · exact ⟨cls, hs.tail hpart⟩

theorem reachesStatic_staticRef (cls : String) : (staticRef cls).ReachesStatic := ⟨cls, .refl⟩

theorem reachesStatic_array : (array t).ReachesStatic ↔ t.ReachesStatic := by
  rw [reachesStatic_iff]
  simp [writtenParts]

theorem reachesStatic_union : (union ts).ReachesStatic ↔ ∃ t ∈ ts, t.ReachesStatic := by
  rw [reachesStatic_iff]
  simp [writtenParts]

theorem reachesStatic_intersection :
    (intersection ts).ReachesStatic ↔ ∃ t ∈ ts, t.ReachesStatic := by
  rw [reachesStatic_iff]
  simp [writtenParts]

/-- Where nothing is put together, only `static` itself is there to come
to. -/
theorem not_reachesStatic (hparts : t.writtenParts = []) (hself : ∀ cls, t ≠ staticRef cls) :
    ¬ t.ReachesStatic := by
  rw [reachesStatic_iff, hparts]
  simp [hself]

end Ty

namespace Renderer

variable {m : Renderer} {parent : Option Ty} {t : Ty} {ts : List Ty} {e : RenderError}

/-! ## The short form -/

/-- **If types fail in one way only**, a row of them fails in this way, and
exactly if one of them does. -/
theorem docTexts_eq_error_iff {failure : RenderError} {P : Ty → Prop}
    (hts : ∀ t ∈ ts, ∀ e, m.docText parent t = .error e ↔ e = failure ∧ P t) :
    m.docTexts parent ts = .error e ↔ e = failure ∧ ∃ t ∈ ts, P t := by
  induction ts with
  | nil => simp [docTexts]
  | cons t ts ih =>
    have hhead := hts t (by simp)
    have hrest := ih fun s hs => hts s (by simp [hs])
    rw [docTexts]
    cases htext : m.docText parent t with
    | error e' =>
      -- the row ends here, and what follows can fail in no other way
      obtain ⟨rfl, hP⟩ := (hhead e').1 htext
      constructor
      · intro he
        cases he
        exact ⟨rfl, t, by simp, hP⟩
      · rintro ⟨rfl, -⟩
        rfl
    | ok text =>
      have hnot : ¬ P t := fun hP => by
        have hfails := (hhead failure).2 ⟨rfl, hP⟩
        rw [htext] at hfails
        cases hfails
      change (m.docTexts parent ts).map (text :: ·) = .error e ↔ _
      rw [map_eq_error_iff, hrest]
      simp [hnot]

/-- **The one failure of the short form**, and exactly when it occurs. -/
theorem docText_eq_error_iff :
    m.docText parent t = .error e ↔ e = .unsupported .docText .staticRef ∧ t.ReachesStatic := by
  induction t using Ty.induction generalizing parent e with
  | step t ih =>
    cases t with
    | staticRef cls =>
      rw [docText, Except.error.injEq, eq_comm]
      exact (and_iff_left (Ty.reachesStatic_staticRef cls)).symm
    | union ts =>
      have hmembers : m.docTexts none ts = .error e ↔ _ :=
        docTexts_eq_error_iff fun t ht e => ih t ht
      rw [docText_union, map_eq_error_iff, hmembers, Ty.reachesStatic_union]
    | intersection ts =>
      have hmembers : m.docTexts none ts = .error e ↔ _ :=
        docTexts_eq_error_iff fun t ht e => ih t ht
      rw [docText, map_eq_error_iff, hmembers, Ty.reachesStatic_intersection]
    | array item =>
      have hitem : m.docText parent item = .error e ↔ _ := ih item (by simp [Ty.parts])
      rcases item.isUnion_or_eq_union with hunion | ⟨ts, rfl⟩
      · rw [docText_array parent hunion, map_eq_error_iff, hitem, Ty.reachesStatic_array]
      · -- the marks are set behind the members, so the union is not written, but its members are
        rw [docText_union, map_eq_error_iff] at hitem
        rw [docText_array_union, map_eq_error_iff, hitem, Ty.reachesStatic_array]
    | _ =>
      rw [docText]
      refine ⟨fun he => ?_, fun h => absurd h.2 (Ty.not_reachesStatic rfl (by simp))⟩
      cases he

/-- Renderers that differ in nothing but their rules agree on words. -/
theorem agreeOnWords_rules (config : Config) (classes : Hierarchy) (rules rules' : List Rule) :
    AgreeOnWords ⟨config, rules, classes⟩ ⟨config, rules', classes⟩ where
  classes := rfl
  closureClass := rfl
  supports _ := rfl

/-- **The outcome of the short form.** With settings and classes given, a
type has one outcome, by whatever rules and in whatever place it is
written. It is a failure exactly if the type comes to a `static` by
members of unions and intersections and items of arrays, and there is one
failure, which names the operation and the form. -/
theorem outcome_docText (config : Config) (classes : Hierarchy) (t : Ty) :
    (∀ (rules rules' : List Rule) (parent parent' : Option Ty),
      docText ⟨config, rules, classes⟩ parent t = docText ⟨config, rules', classes⟩ parent' t) ∧
    (∀ (rules : List Rule) (parent : Option Ty),
      (∃ e, docText ⟨config, rules, classes⟩ parent t = .error e) ↔ t.ReachesStatic) ∧
    ∀ (rules : List Rule) (parent : Option Ty) (e : RenderError),
      docText ⟨config, rules, classes⟩ parent t = .error e →
        e = .unsupported .docText .staticRef := by
  refine ⟨fun rules rules' parent parent' => ?_, fun rules parent => ?_,
    fun rules parent e he => ?_⟩
  · rw [docText_parent _ parent, docText_parent _ parent']
    exact (agreeOnWords_rules config classes rules rules').docText_eq none t
  · constructor
    · rintro ⟨e, he⟩
      exact (docText_eq_error_iff.1 he).2
    · intro hreach
      exact ⟨_, docText_eq_error_iff.2 ⟨rfl, hreach⟩⟩
  · exact (docText_eq_error_iff.1 he).1

/-- An iterable hides its item. -/
example : (standard {} .empty).docText none (.iterable (.staticRef "Node")) = .ok "" := rfl

/-! ## Doc types -/

/-- By the default rules every type has a doc type. -/
theorem exists_docType_standard (config : Config) (classes : Hierarchy) (t : Ty) :
    ∃ d, (standard config classes).docType t = .ok d := by
  induction t using Ty.induction with
  | step t ih =>
    cases t with
    | union ts =>
      choose! doc hdoc using ih
      exact ⟨_, docType_union hdoc⟩
    | intersection ts =>
      choose! doc hdoc using ih
      exact ⟨_, docType_intersection hdoc⟩
    | array item =>
      obtain ⟨d, hdoc⟩ := ih item (by simp [Ty.parts])
      exact ⟨d.arrayOf, docType_array hdoc⟩
    | iterable item =>
      obtain ⟨d, hdoc⟩ := ih item (by simp [Ty.parts])
      exact ⟨d.arrayOf, docType_iterable hdoc⟩
    | _ => exact ⟨_, rfl⟩

end Renderer

end TypeScribe

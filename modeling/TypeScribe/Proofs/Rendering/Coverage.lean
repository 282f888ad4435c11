import TypeScribe.Proofs.Rendering.DocFailure
import TypeScribe.Proofs.Rendering.RuleOrder
/-!
# What the rules have to cover

Types of five forms have a doc type only by a rule. A renderer that lacks
one of these rules fails at the first type it comes to that would need it
(`docType_eq_error_iff`), and only there.

The renderer and its rules call each other: an intersection is documented
by a rule that asks the renderer for its members, and the rule for
iterables asks for the very type it is given. `docTypeWithin` makes these
calls one inside another and gives up at a given depth. It never has to
(`docTypeWithin_eq`), because a type goes to a rule only if it is no
iterable, so that every call that is made is for a part of the type.
-/

namespace TypeScribe

/-- Whether types of a form have a doc type by a rule only. -/
def TyKind.needsRule : TyKind → Bool
  | scalar | null | mixed | never | intersection => true
  | _ => false

/-! ## Calls -/

/-- The answers for several types in turn, up to the first failure. The one
that is asked may give up. -/
def askAll (ask : Ty → Option (Except RenderError DocType)) :
    List Ty → Option (Except RenderError (List DocType))
  | [] => some (.ok [])
  | t :: ts =>
    match ask t with
    | none => none
    | some (.error e) => some (.error e)
    | some (.ok d) => (askAll ask ts).map (·.map (d :: ·))

/-- What a rule makes of a type, where it may ask the renderer. -/
def Rule.docTypeCall (r : Rule) (ask : Ty → Option (Except RenderError DocType)) (t : Ty) :
    Option (Except RenderError DocType) :=
  match r with
  | iterable => ask t
  | intersection => (askAll ask (t.members?.getD [])).map (·.map .allOf)
  | r => r.docType? t (.ok [])

namespace Renderer

variable {m : Renderer} {t : Ty} {ts : List Ty} {n : Nat}

/-- What the renderer makes of a type that no rule decides about. -/
def plainDocTypeCall (m : Renderer) (ask : Ty → Option (Except RenderError DocType)) :
    Ty → Option (Except RenderError DocType)
  | .union ts => (askAll ask ts).map (m.plainDocType · (.union ts))
  | t => some (m.plainDocType (.ok []) t)

/-- What the renderer makes of a type, where it and the rules may ask it
again. -/
def docTypeCall (m : Renderer) (ask : Ty → Option (Except RenderError DocType)) (t : Ty) :
    Option (Except RenderError DocType) :=
  match t.item? with
  | some item => (ask item).map (·.map .arrayOf)
  | none =>
    match m.ruleFor? t with
    | some r => r.docTypeCall ask t
    | none => m.plainDocTypeCall ask t

/-- The doc type of a type, unless more calls than a given number would
have to be open at a time. -/
def docTypeWithin (m : Renderer) : Nat → Ty → Option (Except RenderError DocType)
  | 0, _ => none
  | n + 1, t => m.docTypeCall (m.docTypeWithin n) t

/-- A type with an item is documented as an array, whatever the rules
are. -/
theorem docType_of_item? {item : Ty} (hitem : t.item? = some item) :
    m.docType t = (m.docType item).map .arrayOf := by
  cases t <;> cases hitem <;> rw [docType]

/-- Any other type is documented from its members, if it has any. -/
theorem docType_of_item?_eq_none (hitem : t.item? = none) :
    m.docType t = m.docTypeFrom t (m.docTypes (t.members?.getD [])) := by
  cases t with
  | array _ | iterable _ => cases hitem
  | union ts | intersection ts => rw [docType, Ty.members?, Option.getD_some]
  | _ => simp only [docType, Ty.members?, Option.getD_none, docTypes]

section Calls

variable {ask : Ty → Option (Except RenderError DocType)}

theorem askAll_eq (hask : ∀ t ∈ ts, ask t = some (m.docType t)) :
    askAll ask ts = some (m.docTypes ts) := by
  induction ts with
  | nil => rw [askAll, docTypes]
  | cons t ts ih =>
    have hrest := ih fun s hs => hask s (by simp [hs])
    rw [askAll, docTypes, hask t (by simp)]
    cases m.docType t with
    | error e => rfl
    | ok d =>
      simp only [hrest, Option.map_some]
      rfl

theorem plainDocTypeCall_eq {members : Except RenderError (List DocType)}
    (hmembers : askAll ask (t.members?.getD []) = some members) :
    m.plainDocTypeCall ask t = some (m.plainDocType members t) := by
  cases t with
  | union ts =>
    rw [Ty.members?, Option.getD_some] at hmembers
    rw [plainDocTypeCall, hmembers, Option.map_some]
  | _ => rfl

/-- All rules but that for iterables have an answer. -/
theorem docTypeCall_of_rule {r : Rule} (hr : r ≠ .iterable)
    {members : Except RenderError (List DocType)}
    (hmembers : askAll ask (t.members?.getD []) = some members)
    (default : Except RenderError DocType) :
    r.docTypeCall ask t = some ((r.docType? t members).getD default) := by
  cases r with
  | iterable => exact absurd rfl hr
  | intersection =>
    rw [Rule.docTypeCall, hmembers]
    rfl
  | _ => rfl

/-- **Only the parts of a type are asked for**, so an answer for each of
them is enough. -/
theorem docTypeCall_eq (hask : ∀ s ∈ t.parts, ask s = some (m.docType s)) :
    m.docTypeCall ask t = some (m.docType t) := by
  cases hitem : t.item? with
  | some item =>
    have hitemAsked := hask item (Ty.mem_parts_of_item? hitem)
    simp only [docTypeCall, hitem, hitemAsked, Option.map_some, docType_of_item? hitem]
  | none =>
    have hmembers : askAll ask (t.members?.getD []) = some (m.docTypes (t.members?.getD [])) :=
      askAll_eq fun s hs => hask s (Ty.mem_parts_of_members? hs)
    simp only [docTypeCall, hitem, docType_of_item?_eq_none hitem, docTypeFrom]
    cases hrule : m.ruleFor? t with
    | none => exact plainDocTypeCall_eq hmembers
    | some r =>
      have hkind := kind_of_ruleFor? hrule
      have hr : r ≠ .iterable := by
        rintro rfl
        cases t <;> cases hkind
        cases hitem
      exact docTypeCall_of_rule hr hmembers _

end Calls

/-- **The calls come to an end**: no more of them are open at a time than
the size of the type says. -/
theorem docTypeWithin_eq (hn : sizeOf t ≤ n) : m.docTypeWithin n t = some (m.docType t) := by
  induction n generalizing t with
  | zero => cases t <;> simp at hn
  | succ n ih =>
    rw [docTypeWithin]
    refine docTypeCall_eq fun s hs => ih ?_
    have hsmaller := Ty.sizeOf_lt_of_mem_parts hs
    omega

/-! ## Types without a rule -/

/-- Whether there is a rule for a form. -/
def hasRuleFor (m : Renderer) (k : TyKind) : Bool := m.rules.any (·.kind == k)

/-- Whether a type is of a form that has a doc type by a rule only, and
there is none for it. -/
def lacksRule (m : Renderer) (t : Ty) : Bool := t.kind.needsRule && !m.hasRuleFor t.kind

mutual

/-- The types a renderer comes to when it documents one, in their order. It
comes to the members of an intersection only if there is a rule for it. -/
def visited (m : Renderer) : Ty → List Ty
  | .array t => .array t :: m.visited t
  | .iterable t => .iterable t :: m.visited t
  | .union ts => .union ts :: m.visitedAll ts
  | .intersection ts =>
    .intersection ts :: if m.hasRuleFor .intersection then m.visitedAll ts else []
  | t => [t]

/-- The types a renderer comes to when it documents several. -/
def visitedAll (m : Renderer) : List Ty → List Ty
  | [] => []
  | t :: ts => m.visited t ++ m.visitedAll ts

end

/-- The first of some types that lacks a rule makes a request fail. -/
def firstGap? (m : Renderer) (ts : List Ty) : Option RenderError :=
  (ts.find? m.lacksRule).map fun t => .unsupported .docType t.kind

theorem firstGap?_append (ss ts : List Ty) :
    m.firstGap? (ss ++ ts) = (m.firstGap? ss).or (m.firstGap? ts) := by
  rw [firstGap?, firstGap?, firstGap?, List.find?_append, Option.map_or]

theorem firstGap?_cons_of_lacksRule (h : m.lacksRule t = true) (ts : List Ty) :
    m.firstGap? (t :: ts) = some (.unsupported .docType t.kind) := by
  rw [firstGap?, List.find?_cons_of_pos h, Option.map_some]

theorem firstGap?_cons (h : m.lacksRule t = false) (ts : List Ty) :
    m.firstGap? (t :: ts) = m.firstGap? ts := by
  rw [firstGap?, firstGap?, List.find?_cons_of_neg (by simp [h])]

theorem hasRuleFor_kind (m : Renderer) (t : Ty) :
    m.hasRuleFor t.kind = (m.ruleFor? t).isSome := by
  rw [hasRuleFor, ruleFor?_eq, Rule.firstFor?, List.isSome_find?]

/-! ## Failures -/

/-- How a request failed, if it did. -/
def failure? {α : Type} : Except RenderError α → Option RenderError
  | .error e => some e
  | .ok _ => none

theorem failure?_eq_some_iff {α : Type} {r : Except RenderError α} {e : RenderError} :
    failure? r = some e ↔ r = .error e := by
  cases r <;> simp [failure?]

theorem failure?_map {α β : Type} (f : α → β) (r : Except RenderError α) :
    failure? (r.map f) = failure? r := by
  cases r <;> rfl

theorem failure?_docTypes_cons (t : Ty) (ts : List Ty) :
    failure? (m.docTypes (t :: ts)) =
      (failure? (m.docType t)).or (failure? (m.docTypes ts)) := by
  rw [docTypes]
  cases m.docType t with
  | error e => rfl
  | ok d => exact failure?_map (d :: ·) (m.docTypes ts)

/-- Of several types, the first that fails decides. -/
theorem failure?_docTypes_eq (hts : ∀ t ∈ ts, failure? (m.docType t) = m.firstGap? (m.visited t)) :
    failure? (m.docTypes ts) = m.firstGap? (m.visitedAll ts) := by
  induction ts with
  | nil => rw [docTypes, visitedAll]; rfl
  | cons t ts ih =>
    rw [failure?_docTypes_cons, visitedAll, firstGap?_append, hts t (by simp),
      ih fun s hs => hts s (by simp [hs])]

/-- Without its rule, a type of such a form fails at once. -/
theorem failure?_docType_of_lacksRule (h : m.lacksRule t = true) :
    failure? (m.docType t) = some (.unsupported .docType t.kind) := by
  obtain ⟨hneeds, hnone⟩ : t.kind.needsRule = true ∧ m.ruleFor? t = none := by
    simpa [lacksRule, hasRuleFor_kind] using h
  cases t with
  | scalar _ | null | mixed | never | intersection _ =>
    simp only [docType, docTypeFrom, hnone]
    rfl
  | _ => cases hneeds

/-- **A rule that is there does not fail**, nor does the renderer itself
where it needs none. What can fail is a member. -/
theorem failure?_docType (hbuiltin : ∀ r ∈ m.rules, r ∈ Rule.defaults) (hitem : t.item? = none)
    (h : m.lacksRule t = false) :
    failure? (m.docType t) = failure? (m.docTypes (t.members?.getD [])) := by
  rw [docType_of_item?_eq_none hitem, docTypeFrom]
  cases hrule : m.ruleFor? t with
  | none =>
    have hneedless : t.kind.needsRule = false := by
      simpa [lacksRule, hasRuleFor_kind, hrule] using h
    cases t with
    | union ts => exact failure?_map DocType.oneOf (m.docTypes ts)
    | array _ | iterable _ => cases hitem
    | scalar _ | null | mixed | never | intersection _ => cases hneedless
    | _ => rfl
  | some r =>
    have hmem := hbuiltin r (List.mem_of_find?_eq_some hrule)
    have hkind := kind_of_ruleFor? hrule
    cases r with
    | scalar | null | mixed | never =>
      cases t <;> cases hkind
      rfl
    | iterable =>
      cases t <;> cases hkind
      cases hitem
    | intersection =>
      cases t <;> cases hkind
      exact failure?_map DocType.allOf _
    | fixed k doc hint => simp [Rule.defaults] at hmem

/-- A type comes before all that is in it. -/
theorem exists_visited_eq_cons (m : Renderer) (t : Ty) : ∃ ts, m.visited t = t :: ts := by
  cases t <;> simp only [visited, List.cons.injEq, true_and, exists_eq']

theorem visited_of_item? {item : Ty} (hitem : t.item? = some item) :
    m.visited t = t :: m.visited item := by
  cases t <;> cases hitem <;> rw [visited]

/-- A type that does not lack a rule comes before all of its members. -/
theorem visited_of_item?_eq_none (hitem : t.item? = none) (h : m.lacksRule t = false) :
    m.visited t = t :: m.visitedAll (t.members?.getD []) := by
  cases t with
  | array _ | iterable _ => cases hitem
  | union ts => rw [visited, Ty.members?, Option.getD_some]
  | intersection ts =>
    have hrule : m.hasRuleFor .intersection = true := by
      simpa [lacksRule, Ty.kind, TyKind.needsRule] using h
    rw [visited, if_pos hrule, Ty.members?, Option.getD_some]
  | _ => simp only [visited, Ty.members?, Option.getD_none, visitedAll]

/-- **The first type without a rule decides**: a request fails as this one
does, or not at all. -/
theorem failure?_docType_eq (hbuiltin : ∀ r ∈ m.rules, r ∈ Rule.defaults) (t : Ty) :
    failure? (m.docType t) = m.firstGap? (m.visited t) := by
  induction t using Ty.induction with
  | step t ih =>
    cases hlacks : m.lacksRule t with
    | true =>
      obtain ⟨ts, hfirst⟩ := exists_visited_eq_cons m t
      rw [failure?_docType_of_lacksRule hlacks, hfirst, firstGap?_cons_of_lacksRule hlacks]
    | false =>
      cases hitem : t.item? with
      | some item =>
        have hpart := Ty.mem_parts_of_item? hitem
        rw [docType_of_item? hitem, failure?_map, ih item hpart, visited_of_item? hitem,
          firstGap?_cons hlacks]
      | none =>
        rw [failure?_docType hbuiltin hitem hlacks, visited_of_item?_eq_none hitem hlacks,
          firstGap?_cons hlacks]
        exact failure?_docTypes_eq fun s hs => ih s (Ty.mem_parts_of_members? hs)

/-- **What the rules have to cover**, if they are built-in ones, in any
order and any number of times. Every request comes to an end. It fails
exactly if a type it comes to is scalar, `null`, `mixed`, `never` or an
intersection and has no rule, and then with the form of the first such
type. With the default rules there is none. -/
theorem docType_eq_error_iff (m : Renderer) (hbuiltin : ∀ r ∈ m.rules, r ∈ Rule.defaults)
    (t : Ty) :
    (∀ n, sizeOf t ≤ n → m.docTypeWithin n t = some (m.docType t)) ∧
    (∀ e, m.docType t = .error e ↔
      ∃ s, (m.visited t).find? m.lacksRule = some s ∧ e = .unsupported .docType s.kind) ∧
    (m.rules = Rule.defaults → ∃ d, m.docType t = .ok d) := by
  refine ⟨fun n => docTypeWithin_eq, fun e => ?_, ?_⟩
  · rw [← failure?_eq_some_iff, failure?_docType_eq hbuiltin, firstGap?, Option.map_eq_some_iff]
    simp only [eq_comm]
  · intro hdefaults
    obtain ⟨config, rules, classes⟩ := m
    obtain rfl : rules = Rule.defaults := hdefaults
    exact exists_docType_standard config classes t

/-- A renderer for intersections, iterables and `null`. -/
def patchy : Renderer := ⟨{}, [.intersection, .iterable, .null, .intersection], .empty⟩

/-- A list of numbers that is also `mixed`: it fails at the numbers, before
`mixed`, and the rule for iterables does no harm. -/
theorem docType_eq_error_iff_patchy :
    (∀ r ∈ patchy.rules, r ∈ Rule.defaults) ∧
    (∀ n, sizeOf (Ty.intersection [.null, .iterable (.scalar .int), .mixed]) ≤ n →
      patchy.docTypeWithin n (.intersection [.null, .iterable (.scalar .int), .mixed]) =
        some (.error (.unsupported .docType .scalar))) := by
  have hbuiltin : ∀ r ∈ patchy.rules, r ∈ Rule.defaults := by
    simp [patchy, Rule.defaults]
  obtain ⟨hend, hfails, -⟩ := docType_eq_error_iff patchy hbuiltin
    (.intersection [.null, .iterable (.scalar .int), .mixed])
  have hfirst := (hfails (.unsupported .docType .scalar)).2 ⟨.scalar .int, rfl, rfl⟩
  refine ⟨hbuiltin, fun n hn => ?_⟩
  rw [hend n hn, hfirst]

end Renderer

end TypeScribe

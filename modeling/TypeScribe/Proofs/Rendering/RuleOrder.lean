import Mathlib.Logic.Relation
import TypeScribe.Proofs.Rendering.Agreement
/-!
# Which rules count

Of the rules for one form a renderer only ever asks the first, for the
type it is given and for every type it comes to on the way. So renderers
whose lists have the same first rules render alike, whatever else the
lists hold and in whatever order (`rendersAlike_of_firstRules`). Two
changes of a list leave all first rules in their place: neighbours for
different forms may change places, and a rule may go that comes after
another one for its form (`Rule.Rearranges`).
-/

namespace TypeScribe

namespace Rule

/-- The first rule for a form. -/
def firstFor? (rules : List Rule) (k : TyKind) : Option Rule := rules.find? (·.kind == k)

theorem firstFor?_append (rules rules' : List Rule) (k : TyKind) :
    firstFor? (rules ++ rules') k = (firstFor? rules k).or (firstFor? rules' k) :=
  List.find?_append

theorem firstFor?_cons (r : Rule) (rules : List Rule) (k : TyKind) :
    firstFor? (r :: rules) k = if r.kind = k then some r else firstFor? rules k := by
  unfold firstFor?
  by_cases hk : r.kind = k
  · rw [if_pos hk, List.find?_cons_of_pos (by simpa using hk)]
  · rw [if_neg hk, List.find?_cons_of_neg (by simpa using hk)]

/-- A list with a rule for a form has a first one for it. -/
theorem isSome_firstFor? {rules : List Rule} {r : Rule} (hr : r ∈ rules) :
    (firstFor? rules r.kind).isSome = true := by
  rw [firstFor?, List.find?_isSome]
  exact ⟨r, hr, beq_self_eq_true r.kind⟩

/-! ## Changes of a list -/

/-- A change of a list of rules that is not meant to change anything. -/
inductive Rearranges : List Rule → List Rule → Prop
  /-- Neighbours for different forms change places. -/
  | swap (before after : List Rule) {r s : Rule} : r.kind ≠ s.kind →
      Rearranges (before ++ r :: s :: after) (before ++ s :: r :: after)
  /-- A rule goes that comes after another one for its form. -/
  | drop (before after : List Rule) {r s : Rule} : s ∈ before → s.kind = r.kind →
      Rearranges (before ++ r :: after) (before ++ after)

variable {rules rules' : List Rule}

/-- **A change leaves the first rules in place.** -/
theorem Rearranges.firstFor?_eq (h : Rearranges rules rules') (k : TyKind) :
    firstFor? rules k = firstFor? rules' k := by
  cases h with
  | swap before after hne =>
    rename_i r s
    have hpair : firstFor? (r :: s :: after) k = firstFor? (s :: r :: after) k := by
      simp only [firstFor?_cons]
      by_cases hr : r.kind = k
      · have hs : s.kind ≠ k := fun hs => hne (hr.trans hs.symm)
        rw [if_pos hr, if_neg hs, if_pos hr]
      · rw [if_neg hr, if_neg hr]
    rw [firstFor?_append, firstFor?_append, hpair]
  | drop before after hs hkind =>
    rename_i r s
    rw [firstFor?_append, firstFor?_append, firstFor?_cons]
    by_cases hr : r.kind = k
    · -- the rule in front answers for both lists
      obtain ⟨first, hfirst⟩ := Option.isSome_iff_exists.1 (isSome_firstFor? hs)
      rw [hkind, hr] at hfirst
      rw [hfirst, Option.some_or, Option.some_or]
    · rw [if_neg hr]

/-- **And so does any number of changes.** -/
theorem firstFor?_eq_of_rearranges (h : Relation.ReflTransGen Rearranges rules rules')
    (k : TyKind) : firstFor? rules k = firstFor? rules' k := by
  induction h with
  | refl => rfl
  | tail _ hlast ih => rw [ih, hlast.firstFor?_eq]

end Rule

namespace Renderer

/-- The rule that decides about a type is the first for its form. -/
theorem ruleFor?_eq (m : Renderer) (t : Ty) : m.ruleFor? t = Rule.firstFor? m.rules t.kind := by
  have haccepts : (fun r : Rule => r.accepts t) = fun r => r.kind == t.kind := by
    funext r
    rw [Rule.accepts, Bool.beq_comm]
  rw [ruleFor?, Rule.firstFor?, haccepts]

/-- Renderers with the same first rules agree. -/
theorem agree_of_firstFor? (c : Config) (h : Hierarchy) {rules rules' : List Rule}
    (hfirst : ∀ k, Rule.firstFor? rules k = Rule.firstFor? rules' k) :
    Agree ⟨c, rules, h⟩ ⟨c, rules', h⟩ where
  classes := rfl
  closureClass := rfl
  supports _ := rfl
  iterableMarker := rfl
  ruleFor? t := by rw [ruleFor?_eq, ruleFor?_eq, hfirst]

/-- **Only the first rule for each form counts.** With the same settings
and classes, two lists of rules that have the same first rule for every
form, or none, render every type alike, failures included. In particular
rules for different forms may be put in another order, and rules dropped
that come after another one for their form, any number of times. -/
theorem rendersAlike_of_firstRules (c : Config) (h : Hierarchy) (rules rules' : List Rule) :
    ((∀ k, Rule.firstFor? rules k = Rule.firstFor? rules' k) →
      RendersAlike ⟨c, rules, h⟩ ⟨c, rules', h⟩) ∧
    (Relation.ReflTransGen Rule.Rearranges rules rules' →
      RendersAlike ⟨c, rules, h⟩ ⟨c, rules', h⟩) := by
  have hfirst : (∀ k, Rule.firstFor? rules k = Rule.firstFor? rules' k) →
      RendersAlike ⟨c, rules, h⟩ ⟨c, rules', h⟩ :=
    fun hsame => (agree_of_firstFor? c h hsame).rendersAlike
  exact ⟨hfirst, fun hchanges => hfirst (Rule.firstFor?_eq_of_rearranges hchanges)⟩

/-- A rule that calls scalars numbers, in front of the built-in one for
them: the built-in one may go, and the other change places with that for
`null`. -/
theorem rendersAlike_numbers :
    Relation.ReflTransGen Rule.Rearranges
      [.fixed .scalar (.name "number") none, .null, .scalar]
      [.null, .fixed .scalar (.name "number") none] ∧
    RendersAlike ⟨{}, [.fixed .scalar (.name "number") none, .null, .scalar], .empty⟩
      ⟨{}, [.null, .fixed .scalar (.name "number") none], .empty⟩ := by
  have hdrop : Rule.Rearranges [.fixed .scalar (.name "number") none, .null, .scalar]
      [.fixed .scalar (.name "number") none, .null] :=
    .drop [.fixed .scalar (.name "number") none, .null] [] List.mem_cons_self rfl
  have hswap : Rule.Rearranges [.fixed .scalar (.name "number") none, .null]
      [.null, .fixed .scalar (.name "number") none] := .swap [] [] (by decide)
  have hchanges := (Relation.ReflTransGen.single hdrop).tail hswap
  exact ⟨hchanges, (rendersAlike_of_firstRules {} .empty _ _).2 hchanges⟩

end Renderer

end TypeScribe

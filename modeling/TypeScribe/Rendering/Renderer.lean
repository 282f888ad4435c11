import TypeScribe.Classes.Hierarchy
import TypeScribe.Rendering.Config
import TypeScribe.Rendering.Rule
/-!
# Renderers

A renderer has settings, rules and the classes it knows. It renders a type
in three ways, each in a module of its own: as a doc type, as a hint, and
as one line of text. Here is what they share, the choice of a rule and the
names of classes in doc comments.
-/

namespace TypeScribe

/-- What renders types. -/
structure Renderer where
  config : Config
  /-- The rules in the order they are asked. -/
  rules : List Rule
  classes : Hierarchy
deriving Repr

namespace Renderer

/-- The renderer with the default rules. -/
def standard (config : Config) (classes : Hierarchy) : Renderer :=
  ⟨config, Rule.defaults, classes⟩

/-- Whether hints may use a feature. -/
def supports (m : Renderer) (f : Feature) : Bool := m.config.supports f

/-- The rule that decides about a type: the first that is for it. -/
def ruleFor? (m : Renderer) (t : Ty) : Option Rule := m.rules.find? (·.accepts t)

/-- A class as doc comments name it. An alias stays as it is; a name that
is resolved is written from the root. -/
def docName (m : Renderer) : ClassRef → String
  | .aliased other _ => other
  | .shortened _ full => Text.rooted full
  | .fullyQualified name => Text.rooted name
  | .named name | .selfRef name =>
    if m.classes.declares name then Text.rooted name else name

/-- The class closures are documented as. -/
def closureName (m : Renderer) : String := Text.rooted m.config.closureClass

/-- **The rule that decides is for the type's form.** -/
theorem kind_of_ruleFor? {m : Renderer} {t : Ty} {r : Rule} (h : m.ruleFor? t = some r) :
    r.kind = t.kind := by
  have haccepts : r.accepts t = true := by
    unfold ruleFor? at h
    simpa only using List.find?_some h
  exact (beq_iff_eq.1 haccepts).symm

/-- Types of one form are decided by one rule. -/
theorem ruleFor?_congr (m : Renderer) {s t : Ty} (h : s.kind = t.kind) :
    m.ruleFor? s = m.ruleFor? t := by
  simp [ruleFor?, Rule.accepts, h]

end Renderer

end TypeScribe

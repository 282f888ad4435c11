import TypeScribe.Proofs.Rendering.Agreement
import TypeScribe.Proofs.Version.Reading
import TypeScribe.Rendering.Settings
/-!
# Settings that were saved

Settings are saved with the version as it is shown, so the patch is lost
when they are loaded again (`ofValue_toValue`), and nothing else is. Since
hints depend on the version's features only, and no feature came with a
patch, renderers with the settings before and after cannot be told apart
by what they render.
-/

namespace TypeScribe

namespace Config

/-- The settings with the version's patch dropped. -/
def withoutPatch (c : Config) : Config := { c with version := c.version.withoutPatch }

theorem supports_withoutPatch (c : Config) (f : Feature) : c.withoutPatch.supports f = c.supports f :=
  c.version.has_withoutPatch f

/-- A record with all three fields. -/
theorem ofRecord_eq_ok {fields : List (String × Value)} {closureClass marker text : String}
    {v : Version} (hclosure : fields.lookup "closure-class" = some (.text closureClass))
    (hmarker : fields.lookup "iterable-marker" = some (.text marker))
    (htext : fields.lookup "target-version" = some (.text text))
    (hread : Version.read text = .ok v) : ofRecord fields = .ok ⟨v, closureClass, marker⟩ := by
  have hversion : Value.asVersion (.text text) = .ok v := by
    simp only [Value.asVersion, Value.asText, bind, Except.bind, hread, Except.mapError]
  rw [ofRecord, hclosure, hmarker, htext]
  simp only [Value.orDefault, Value.asText, hversion]
  rfl

/-- **What is loaded is what was saved**, but for the patch. -/
theorem ofValue_toValue (c : Config) : ofValue c.toValue = .ok c.withoutPatch := by
  rw [toValue, ofValue]
  exact ofRecord_eq_ok rfl rfl rfl c.version.read_text

/-- Renderers do not see the patch. -/
theorem agree_withoutPatch (c : Config) (rules : List Rule) (classes : Hierarchy) :
    (Renderer.mk c rules classes).Agree (Renderer.mk c.withoutPatch rules classes) where
  classes := rfl
  closureClass := rfl
  supports f := (c.supports_withoutPatch f).symm
  iterableMarker := rfl
  ruleFor? _ := rfl

end Config

end TypeScribe

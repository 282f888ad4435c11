import TypeScribe.Version.Feature
/-!
# Settings of a renderer

What can be set about the rendering of types, and what holds if nothing
is set.
-/

namespace TypeScribe

/-- The settings. -/
structure Config where
  /-- The version whose features hints may use. -/
  version : Version := .latest
  /-- The class closures are documented as. -/
  closureClass : String := "Closure"
  /-- The class that counts as `iterable` in a union of arrays. -/
  iterableMarker : String := "Traversable"
deriving DecidableEq, Repr

namespace Config

instance : Inhabited Config := ⟨{}⟩

/-- Whether hints may use a feature. -/
def supports (c : Config) (f : Feature) : Bool := c.version.has f

end Config

end TypeScribe

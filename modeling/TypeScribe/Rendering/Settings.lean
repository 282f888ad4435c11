import TypeScribe.Rendering.Config
import TypeScribe.Version.Reading
/-!
# Settings as data

A settings file is data of a few shapes, `Value`, and the settings are
read from it in one of three ways: nothing at all stands for the defaults,
a record gives fields by name, and a list gives them by position. Fields
that are missing keep their defaults, fields of other names are ignored,
and a field that is there has to be text.

The fields of a record are read in the order of their names, those of a
list by position; the first one that cannot be read is the error.
-/

namespace TypeScribe

/-- What a settings file holds. -/
inductive Value
  | null
  /-- A number or a truth value, which no setting takes. -/
  | atom
  | text (s : String)
  | list (items : List Value)
  | record (fields : List (String × Value))
deriving Repr

/-- Settings that cannot be read. -/
inductive ConfigError
  /-- The data or one of its fields has a wrong shape. -/
  | shape
  /-- The version is malformed. -/
  | version (e : VersionError)
deriving DecidableEq, Repr

namespace ConfigError

/-- What the user is told; a wrong shape is left to the reader of the
data to describe. -/
def message? : ConfigError → Option String
  | shape => none
  | version e => some e.message

end ConfigError

namespace Value

instance : Inhabited Value := ⟨null⟩

/-- The text a value is. -/
def asText : Value → Except ConfigError String
  | text s => .ok s
  | _ => .error .shape

/-- The version a value is the text of. -/
def asVersion (v : Value) : Except ConfigError Version := do
  (Version.read (← v.asText)).mapError .version

/-- Reads a field if it is there. -/
def orDefault {α : Type} (default : α) (read : Value → Except ConfigError α) :
    Option Value → Except ConfigError α
  | none => .ok default
  | some v => read v

end Value

namespace Config

/-- The settings of a record. -/
def ofRecord (fields : List (String × Value)) : Except ConfigError Config := do
  let d : Config := {}
  let closureClass ← Value.orDefault d.closureClass Value.asText (fields.lookup "closure-class")
  let marker ← Value.orDefault d.iterableMarker Value.asText (fields.lookup "iterable-marker")
  let version ← Value.orDefault d.version Value.asVersion (fields.lookup "target-version")
  return ⟨version, closureClass, marker⟩

/-- The settings of a list: version, closure class and iterable marker. -/
def ofList (items : List Value) : Except ConfigError Config := do
  let d : Config := {}
  let version ← Value.orDefault d.version Value.asVersion items[0]?
  let closureClass ← Value.orDefault d.closureClass Value.asText items[1]?
  let marker ← Value.orDefault d.iterableMarker Value.asText items[2]?
  if items.length ≤ 3 then return ⟨version, closureClass, marker⟩ else throw .shape

/-- The settings some data stand for. -/
def ofValue : Value → Except ConfigError Config
  | .null => .ok {}
  | .record fields => ofRecord fields
  | .list items => ofList items
  | .atom | .text _ => .error .shape

/-- The settings as data. The version is written as it is shown, without
its patch. -/
def toValue (c : Config) : Value :=
  .record [("closure-class", .text c.closureClass), ("iterable-marker", .text c.iterableMarker),
    ("target-version", .text c.version.text)]

/-! ## Changing one setting -/

/-- A setting by its name. -/
inductive Setting
  | targetVersion
  | closureClass
  | iterableMarker
deriving DecidableEq, Repr

/-- The settings with one of them given anew. -/
def set (c : Config) (s : String) : Setting → Except VersionError Config
  | .targetVersion => do return { c with version := ← Version.read s }
  | .closureClass => .ok { c with closureClass := s }
  | .iterableMarker => .ok { c with iterableMarker := s }

/-- The settings with several changes, from left to right; the first
malformed version is the error. -/
def setAll (c : Config) : List (Setting × String) → Except VersionError Config
  | [] => .ok c
  | change :: changes => do (← c.set change.2 change.1).setAll changes

end Config

end TypeScribe

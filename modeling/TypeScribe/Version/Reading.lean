import TypeScribe.Text.Blank
import TypeScribe.Text.Segments
import TypeScribe.Version.Basic
/-!
# Reading a version

A version is written either as its bare number (`70400`) or as two or
three parts (`7.4`, `7.4.33`). A bare number below 10000 would name a
version before the first major one and is refused, so that `8` is not
silently read as a patch level. Blanks around the text do not matter.
-/

namespace TypeScribe

/-- A text that is not a version. -/
structure VersionError where
  /-- The refused text, without the blanks around it. -/
  given : String
deriving DecidableEq, Repr

/-- What the user is told. -/
def VersionError.message (e : VersionError) : String :=
  "invalid target version `" ++ e.given ++ "`, expected `MAJOR.MINOR` or a numeric id like `70400`"

namespace Version

/-- The version a trimmed text denotes. -/
def ofText? (text : List Char) : Option Version :=
  match Text.segments '.' text with
  | [id] => do
    let id ← Text.numeral? id
    if 10000 ≤ id then ofId? id else none
  | [major, minor] => do
    ofParts? (← Text.numeral? major) (← Text.numeral? minor) 0
  | [major, minor, patch] => do
    ofParts? (← Text.numeral? major) (← Text.numeral? minor) (← Text.numeral? patch)
  | _ => none

/-- Reads a version; a refusal carries the trimmed text. -/
def read (s : String) : Except VersionError Version :=
  let given := Text.trim s
  match ofText? given.toList with
  | some v => .ok v
  | none => .error ⟨given⟩

/-- **A refusal names what was given**, and only a text that denotes no
version is refused. -/
theorem read_eq_error_iff {s : String} {e : VersionError} :
    read s = .error e ↔ ofText? (Text.trim s).toList = none ∧ e = ⟨Text.trim s⟩ := by
  cases h : ofText? (Text.trim s).toList <;> simp [read, h, eq_comm]

theorem read_eq_ok_iff {s : String} {v : Version} :
    read s = .ok v ↔ ofText? (Text.trim s).toList = some v := by
  cases h : ofText? (Text.trim s).toList <;> simp [read, h]

end Version

end TypeScribe

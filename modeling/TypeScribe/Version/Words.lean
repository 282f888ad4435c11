import TypeScribe.Version.Reading
/-!
# Reading a version in words

`Version.read` looks at all parts of a text at once and reckons with
numbers of any size. Here the parts are taken one after the other, as they
come, and the reckoning is done in words of 32 bits. A result may leave
the words. Where that is expected, the step is checked and the text
refused; the other steps are trusted, and a trusted step that leaves the
words after all is a fault (`WordFault.overflow`).
-/

namespace TypeScribe

namespace Version

/-- How a reading in words ends without a version. -/
inductive WordFault
  /-- The text is no version. -/
  | refused (e : VersionError)
  /-- A result that was trusted to fit a word did not. -/
  | overflow
deriving DecidableEq, Repr

namespace Words

/-- A number as a word, if it fits. -/
def word? (n : Nat) : Option UInt32 :=
  if n < Text.wordBound then some (UInt32.ofNat n) else none

/-- The product of two words, if it fits. -/
def product? (a b : UInt32) : Option UInt32 := word? (a.toNat * b.toNat)

/-- The sum of two words, if it fits. -/
def sum? (a b : UInt32) : Option UInt32 := word? (a.toNat + b.toNat)

/-- A result that must be there, with the fault that it is not. -/
def expect {α : Type} (fault : WordFault) : Option α → Except WordFault α
  | some a => .ok a
  | none => .error fault

/-- The word of a numeral. -/
def numeral (refused : WordFault) (text : List Char) : Except WordFault UInt32 :=
  expect refused ((Text.numeral? text).map UInt32.ofNat)

/-- The word of the next part, and the parts after it. A part that is
missing counts as zero. -/
def next (refused : WordFault) :
    List (List Char) → Except WordFault (UInt32 × List (List Char))
  | [] => .ok (0, [])
  | part :: parts => do return (← numeral refused part, parts)

/-- The number of a version from its parts. What comes of the major part
is checked; what comes of the others is trusted. -/
def assemble (refused : WordFault) (major minor patch : UInt32) : Except WordFault UInt32 := do
  let high ← expect refused (product? major 10000)
  let middle ← expect .overflow (product? minor 100)
  let low ← expect .overflow (sum? middle patch)
  expect refused (sum? high low)

/-- The same, if minor and patch have two digits and no part is left. -/
def assembleAll (refused : WordFault) (major minor patch : UInt32) (left : List (List Char)) :
    Except WordFault UInt32 :=
  if 99 < minor ∨ 99 < patch ∨ left ≠ [] then .error refused
  else assemble refused major minor patch

/-- The number of a version that is written in parts. -/
def ofParts (refused : WordFault) (parts : List (List Char)) : Except WordFault UInt32 := do
  let (major, parts) ← next refused parts
  let (minor, parts) ← next refused parts
  let (patch, parts) ← next refused parts
  assembleAll refused major minor patch parts

/-- The number of a version that is written as one. -/
def ofNumber (refused : WordFault) (text : List Char) : Except WordFault UInt32 := do
  let id ← numeral refused text
  if id < 10000 then .error refused else .ok id

end Words

/-- Reads the number of a version in words. -/
def readInWords (s : String) : Except WordFault UInt32 :=
  let given := Text.trim s
  if '.' ∈ given.toList then Words.ofParts (.refused ⟨given⟩) (Text.segments '.' given.toList)
  else Words.ofNumber (.refused ⟨given⟩) given.toList

end Version

end TypeScribe

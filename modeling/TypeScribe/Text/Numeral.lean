/-!
# Numerals of one machine word

A numeral is a run of decimal digits, at least one, with at most one `+`
in front. Zeros may lead. A numeral whose value does not fit an unsigned
word of 32 bits is refused rather than reduced.
-/

namespace TypeScribe

namespace Text

/-- The first number that no longer fits a word. -/
def wordBound : Nat := 4294967296

/-- The value of a run of decimal digits, continued from `acc`. -/
def digitsValue? (acc : Nat) : List Char → Option Nat
  | [] => some acc
  | c :: rest => if c.isDigit then digitsValue? (acc * 10 + (c.toNat - '0'.toNat)) rest else none

/-- A numeral without the sign it may begin with. -/
def unsigned : List Char → List Char
  | '+' :: rest => rest
  | text => text

/-- The word a text denotes, if it is a numeral and fits. -/
def numeral? (text : List Char) : Option Nat :=
  if unsigned text = [] then none
  else (digitsValue? 0 (unsigned text)).filter (· < wordBound)

theorem numeral?_lt {text : List Char} {n : Nat} (h : numeral? text = some n) : n < wordBound := by
  unfold numeral? at h
  split at h
  · cases h
  · rw [Option.filter_eq_some_iff] at h
    simpa using h.2

end Text

end TypeScribe

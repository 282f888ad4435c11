/-!
# Blank characters

The white space of the Unicode standard, and text trimmed of it at both
ends. A number read from a settings file may be surrounded by any of
these characters, the no-break spaces and the line separators among them.
-/

namespace TypeScribe

namespace Text

/-- The code points with the property `White_Space`, as closed ranges in
increasing order. -/
def blankRanges : List (Nat × Nat) :=
  [(0x09, 0x0D), (0x20, 0x20), (0x85, 0x85), (0xA0, 0xA0), (0x1680, 0x1680), (0x2000, 0x200A),
   (0x2028, 0x2029), (0x202F, 0x202F), (0x205F, 0x205F), (0x3000, 0x3000)]

/-- A character of the property `White_Space`. -/
def isBlank (c : Char) : Bool :=
  blankRanges.any fun r => r.1 ≤ c.toNat && c.toNat ≤ r.2

/-- The text without the blanks at its two ends. -/
def trim (s : String) : String :=
  String.ofList ((s.toList.dropWhile isBlank).reverse.dropWhile isBlank).reverse

/-- Every character the core library calls white space is blank. -/
theorem isBlank_of_isWhitespace {c : Char} (h : c.isWhitespace = true) : isBlank c = true := by
  simp only [Char.isWhitespace, Bool.or_eq_true, decide_eq_true_eq] at h
  rcases h with ((rfl | rfl) | rfl) | rfl <;> decide

/-- What trimming at the end leaves is the front of the text. -/
theorem trimEnd_prefix (text : List Char) :
    (text.reverse.dropWhile isBlank).reverse <+: text := by
  have h : text.reverse.dropWhile isBlank <:+ text.reverse := List.dropWhile_suffix isBlank
  rwa [← List.reverse_prefix, List.reverse_reverse] at h

/-- Trimmed text does not begin with a blank. -/
theorem isBlank_head_trim {s : String} {c : Char} {rest : List Char}
    (h : (trim s).toList = c :: rest) : isBlank c = false := by
  simp only [trim, String.toList_ofList] at h
  obtain ⟨tail, htail⟩ := trimEnd_prefix (s.toList.dropWhile isBlank)
  rw [h, List.cons_append] at htail
  have hne : s.toList.dropWhile isBlank ≠ [] := by rw [← htail]; simp
  have := List.head_dropWhile_not isBlank hne
  simpa only [← htail, List.head_cons] using this

end Text

end TypeScribe

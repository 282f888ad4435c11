import TypeScribe.Text.Numeral
/-!
# Written numbers

`IsNumeral` says which texts are numerals of which numbers, and those are
the texts that are read (`numeral?_eq_some_iff`). A number written in
decimal digits, without a sign and without zeros in front, is a numeral of
itself, provided it fits a word (`isNumeral_toDigits`).
-/

namespace TypeScribe

namespace Text

variable {text : List Char}

/-- The value of digits is theirs in base ten. -/
theorem digitsValue?_of_digits (hdigits : ∀ c ∈ text, c.isDigit = true) (acc : Nat) :
    digitsValue? acc text = some (Nat.ofDigitChars 10 text acc) := by
  induction text generalizing acc with
  | nil => rw [digitsValue?, Nat.ofDigitChars_nil]
  | cons c rest ih =>
    have hc : c.isDigit = true := hdigits c (by simp)
    have hrest := ih fun d hd => hdigits d (by simp [hd])
    rw [digitsValue?, if_pos hc, hrest, Nat.ofDigitChars_cons, Nat.mul_comm]

/-- Nothing but digits has a value. -/
theorem isDigit_of_digitsValue? {acc n : Nat} (h : digitsValue? acc text = some n) :
    ∀ c ∈ text, c.isDigit = true := by
  induction text generalizing acc with
  | nil => simp
  | cons c rest ih =>
    rw [digitsValue?] at h
    split at h
    · rename_i hc
      simpa [hc] using ih h
    · cases h

/-- Digits do not begin with a sign. -/
theorem unsigned_of_digits (hdigits : ∀ c ∈ text, c.isDigit = true) : unsigned text = text := by
  unfold unsigned
  split
  · exact absurd (hdigits '+' (by simp)) (by decide)
  · rfl

/-! ## What a numeral is -/

/-- One digit or more, with at most one `+` before them, of a value that
fits a word. -/
structure IsNumeral (text : List Char) (n : Nat) : Prop where
  digits : ∃ digits, (text = digits ∨ text = '+' :: digits) ∧ digits ≠ [] ∧
    (∀ c ∈ digits, c.isDigit = true) ∧ Nat.ofDigitChars 10 digits 0 = n
  lt : n < wordBound

theorem eq_unsigned_or (text : List Char) : text = unsigned text ∨ text = '+' :: unsigned text := by
  unfold unsigned
  split
  · exact .inr rfl
  · exact .inl rfl

/-- **The numerals are what is read**, each as its value. -/
theorem numeral?_eq_some_iff {n : Nat} : numeral? text = some n ↔ IsNumeral text n := by
  constructor
  · intro h
    refine ⟨⟨unsigned text, eq_unsigned_or text, ?_⟩, numeral?_lt h⟩
    rw [numeral?] at h
    split at h
    · cases h
    · rename_i hne
      obtain ⟨hvalue, -⟩ := Option.filter_eq_some_iff.1 h
      have hdigits := isDigit_of_digitsValue? hvalue
      rw [digitsValue?_of_digits hdigits, Option.some.injEq] at hvalue
      exact ⟨hne, hdigits, hvalue⟩
  · rintro ⟨⟨digits, hsign, hne, hdigits, rfl⟩, hlt⟩
    have hunsigned : unsigned text = digits := by
      rcases hsign with rfl | rfl
      · exact unsigned_of_digits hdigits
      · rfl
    rw [numeral?, hunsigned, if_neg hne, digitsValue?_of_digits hdigits]
    simp [hlt]

/-- A numeral holds nothing but digits and a sign. -/
theorem IsNumeral.mem {n : Nat} {c : Char} (h : IsNumeral text n) (hc : c ∈ text) :
    c = '+' ∨ c.isDigit = true := by
  obtain ⟨digits, rfl | rfl, -, hdigits, -⟩ := h.digits
  · exact .inr (hdigits c hc)
  · exact (List.mem_cons.1 hc).imp_right (hdigits c)

/-- **A number that fits is a numeral as it is written.** -/
theorem isNumeral_toDigits {n : Nat} (h : n < wordBound) : IsNumeral (Nat.toDigits 10 n) n := by
  have hdigits : ∀ c ∈ Nat.toDigits 10 n, c.isDigit = true :=
    fun _ => Nat.isDigit_of_mem_toDigits (by decide) (by decide)
  exact ⟨⟨Nat.toDigits 10 n, .inl rfl, Nat.toDigits_ne_nil, hdigits,
    Nat.ofDigitChars_ten_toDigits⟩, h⟩

end Text

end TypeScribe

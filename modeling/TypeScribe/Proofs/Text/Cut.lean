/-!
# Cutting a text by its bytes

Positions in a text count the bytes of its UTF-8 form. A part can be cut
out between two positions only where characters begin or the text ends. A
piece with some text before it and some after it is cut out at the length
of the text before (`StandsAt.cut?_eq`), however many bytes a character
takes.
-/

namespace TypeScribe

namespace Text

/-- The part of a text from byte `start` to byte `stop`, if both are
positions in the text, in this order, and none is inside a character. -/
def cut? (s : String) (start stop : Nat) : Option String :=
  if h : (String.Pos.Raw.mk start).IsValid s ∧ (String.Pos.Raw.mk stop).IsValid s ∧
      start ≤ stop then
    some (String.extract (s.pos ⟨start⟩ h.1) (s.pos ⟨stop⟩ h.2.1))
  else none

theorem extract_middle (a b c : ByteArray) :
    (a ++ b ++ c).extract a.size (a.size + b.size) = b := by
  have hrest : c.extract (a.size - (a ++ b).size) (a.size + b.size - (a ++ b).size) = .empty := by
    rw [ByteArray.extract_eq_empty_iff, ByteArray.size_append]
    omega
  rw [ByteArray.extract_append, ByteArray.extract_append_eq_right rfl rfl, hrest,
    ByteArray.append_empty]

/-- Where a first piece ends, a character begins, or the text ends. -/
theorem isValid_of_append (a b : String) :
    (String.Pos.Raw.mk a.utf8ByteSize).IsValid (a ++ b) :=
  String.Pos.Raw.isValid_iff_exists_append.2 ⟨a, b, rfl, rfl⟩

/-- The piece has `start` bytes before it in the whole. -/
def StandsAt (piece whole : String) (start : Nat) : Prop :=
  ∃ before after, whole = before ++ piece ++ after ∧ before.utf8ByteSize = start

variable {a b c : String} {i j : Nat}

theorem standsAt_self (a : String) : StandsAt a a 0 :=
  ⟨"", "", by rw [String.empty_append, String.append_empty], rfl⟩

/-- A piece of a piece is a piece of the whole. -/
theorem StandsAt.trans (hab : StandsAt a b i) (hbc : StandsAt b c j) : StandsAt a c (j + i) := by
  obtain ⟨before, after, rfl, rfl⟩ := hab
  obtain ⟨front, back, rfl, rfl⟩ := hbc
  refine ⟨front ++ before, after ++ back, ?_, String.utf8ByteSize_append⟩
  simp only [String.append_assoc]

/-- **What is cut out where a piece stands is the piece.** -/
theorem StandsAt.cut?_eq (h : StandsAt a b i) : cut? b i (i + a.utf8ByteSize) = some a := by
  obtain ⟨before, after, rfl, rfl⟩ := h
  have hstart : (String.Pos.Raw.mk before.utf8ByteSize).IsValid (before ++ a ++ after) := by
    rw [String.append_assoc]
    exact isValid_of_append before (a ++ after)
  have hstop : (String.Pos.Raw.mk (before.utf8ByteSize + a.utf8ByteSize)).IsValid
      (before ++ a ++ after) := by
    rw [← String.utf8ByteSize_append]
    exact isValid_of_append (before ++ a) after
  rw [cut?, dif_pos ⟨hstart, hstop, Nat.le_add_right _ _⟩, Option.some.injEq]
  apply String.toByteArray_inj.1
  rw [String.toByteArray_extract, String.toByteArray_append, String.toByteArray_append]
  exact extract_middle _ _ _

end Text

end TypeScribe

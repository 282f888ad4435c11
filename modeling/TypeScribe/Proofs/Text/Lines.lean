import Mathlib.Data.List.Basic
import TypeScribe.Text.Segments
/-!
# Lines

A text made of lines, each ended by a line feed, is cut at its line feeds
into these lines and an empty rest (`segments_lines`). How far a line is
indented and which word it begins with can be read off it, whatever comes
after that word (`lineHead_indented`).
-/

namespace TypeScribe

namespace Text

/-! ## Cutting a text into lines -/

/-- **Ended lines are cut apart again.** -/
theorem segments_lines {lines : List String} (hlines : ∀ line ∈ lines, '\n' ∉ line.toList) :
    segments '\n' (String.join (lines.map (· ++ "\n"))).toList =
      lines.map String.toList ++ [[]] := by
  have hjoin : ∀ lines : List String, (String.join (lines.map (· ++ "\n"))).toList =
      lines.flatMap fun line => line.toList ++ ['\n'] := by
    intro lines
    simp [String.toList_join, List.flatMap_map]
  rw [hjoin]
  induction lines with
  | nil => rfl
  | cons line lines ih =>
    have hrest := ih fun l hl => hlines l (List.mem_cons_of_mem line hl)
    rw [List.flatMap_cons, List.append_assoc, List.singleton_append,
      segments_append_cons (hlines line List.mem_cons_self), hrest, List.map_cons,
      List.cons_append]

/-! ## How a line begins -/

/-- How far a line is indented, and the word after that. -/
def lineHead (line : List Char) : Nat × List Char :=
  ((line.takeWhile (· = ' ')).length, (line.dropWhile (· = ' ')).takeWhile (· ≠ ' '))

/-- **An indented line begins with its indentation and its first word**, if
the rest of the line is set off by a space. -/
theorem lineHead_indented {indent : Nat} {word rest : List Char} (hne : word ≠ [])
    (hword : ' ' ∉ word) (hrest : ∀ c ∈ rest.head?, c = ' ') :
    lineHead (List.replicate indent ' ' ++ word ++ rest) = (indent, word) := by
  obtain ⟨c, word, rfl⟩ := List.exists_cons_of_ne_nil hne
  have hc : c ≠ ' ' := fun hc => hword (by rw [hc]; exact List.mem_cons_self)
  have hspaces : ∀ s ∈ List.replicate indent ' ', decide (s = ' ') = true := by
    intro s hs
    rw [List.eq_of_mem_replicate hs]
    rfl
  have hletters : ∀ s ∈ c :: word, decide (s ≠ ' ') = true := by
    intro s hs
    rw [decide_eq_true_eq]
    rintro rfl
    exact hword hs
  have hindent : (List.replicate indent ' ' ++ (c :: word ++ rest)).takeWhile (· = ' ') =
      List.replicate indent ' ' := by
    rw [List.takeWhile_append_of_pos hspaces, List.cons_append,
      List.takeWhile_cons_of_neg (by simp [hc]), List.append_nil]
  have hrestOfLine : (List.replicate indent ' ' ++ (c :: word ++ rest)).dropWhile (· = ' ') =
      c :: word ++ rest := by
    rw [List.dropWhile_append_of_pos hspaces, List.cons_append,
      List.dropWhile_cons_of_neg (by simp [hc])]
  have hstop : rest.takeWhile (· ≠ ' ') = [] := by
    cases rest with
    | nil => rfl
    | cons s rest => rw [List.takeWhile_cons_of_neg (by simp [hrest s rfl])]
  rw [lineHead, List.append_assoc, hindent, hrestOfLine, List.takeWhile_append_of_pos hletters,
    hstop, List.length_replicate, List.append_nil]

end Text

end TypeScribe

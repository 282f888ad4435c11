import TypeScribe.Text.Segments
/-!
# Cutting a text outside of parentheses

`outerSegments sep` cuts a text as `segments sep` does, but only where no
parenthesis is open. What stands between two cuts may have the separator
in parentheses: reading on from some depth, a text may lead to another
depth, and it does not show the separator as long as it has it in
parentheses only (`Leads`). Texts that lead from outside back to outside
can be joined by the separator and cut apart again
(`outerSegments_intercalate`).
-/

namespace TypeScribe

namespace Text

variable {sep c : Char} {n k j : Nat} {w w' : List Char}

/-- How many parentheses are open after a character. -/
def depthAfter (c : Char) (depth : Nat) : Nat :=
  if c = '(' then depth + 1 else if c = ')' then depth - 1 else depth

/-- The stretches of a text between the occurrences of `sep` outside of
parentheses, where `depth` parentheses are open before the text. -/
def outerSegments (sep : Char) (depth : Nat) : List Char → List (List Char)
  | [] => [[]]
  | c :: rest =>
    if c = sep ∧ depth = 0 then [] :: outerSegments sep depth rest
    else (outerSegments sep (depthAfter c depth) rest).modifyHead (c :: ·)

/-- The text leads from one depth to another and shows the separator in
parentheses only. -/
inductive Leads (sep : Char) : Nat → List Char → Nat → Prop
  | nil (n : Nat) : Leads sep n [] n
  | cons {n k : Nat} {c : Char} {w : List Char} : (c = sep → 0 < n) →
      Leads sep (depthAfter c n) w k → Leads sep n (c :: w) k

theorem Leads.append (h : Leads sep n w k) (h' : Leads sep k w' j) : Leads sep n (w ++ w') j := by
  induction h with
  | nil n => exact h'
  | cons hc _ ih => exact .cons hc (ih h')

/-- Without parentheses the depth stays. -/
theorem leads_of_forall (hw : ∀ c ∈ w, c ≠ '(' ∧ c ≠ ')' ∧ (c = sep → 0 < n)) :
    Leads sep n w n := by
  induction w with
  | nil => exact .nil n
  | cons c w ih =>
    obtain ⟨hopen, hclose, hc⟩ := hw c List.mem_cons_self
    refine .cons hc ?_
    rw [depthAfter, if_neg hopen, if_neg hclose]
    exact ih fun b hb => hw b (List.mem_cons_of_mem c hb)

/-- Parentheses around a text lead out again. -/
theorem Leads.parenthesised (h : Leads sep (n + 1) w (n + 1)) (hopen : '(' = sep → 0 < n) :
    Leads sep n ('(' :: (w ++ [')'])) n := by
  have hclose : Leads sep (n + 1) [')'] n := .cons (fun _ => Nat.succ_pos n) (.nil n)
  exact .cons hopen (h.append hclose)

/-- Texts that lead back do so in a row. -/
theorem leads_intercalate {joint : List Char} {words : List (List Char)}
    (hwords : ∀ w ∈ words, Leads sep n w n) (hjoint : Leads sep n joint n) :
    Leads sep n (joint.intercalate words) n := by
  induction words with
  | nil => exact .nil n
  | cons v words ih =>
    have hv := hwords v List.mem_cons_self
    have hrest := ih fun w hw => hwords w (List.mem_cons_of_mem v hw)
    cases words with
    | nil =>
      rw [List.intercalate_singleton]
      exact hv
    | cons w words =>
      rw [List.intercalate_cons_cons]
      exact (hv.append hjoint).append hrest

/-- **Where nothing shows, nothing is cut.** -/
theorem outerSegments_append (h : Leads sep n w k) (rest : List Char) :
    outerSegments sep n (w ++ rest) = (outerSegments sep k rest).modifyHead (w ++ ·) := by
  induction h with
  | nil n => exact (congrFun List.modifyHead_id (outerSegments sep n rest)).symm
  | @cons n k c w hc _ ih =>
    have hkept : ¬ (c = sep ∧ n = 0) := by
      rintro ⟨hsep, rfl⟩
      exact Nat.lt_irrefl 0 (hc hsep)
    rw [List.cons_append, outerSegments, if_neg hkept, ih, List.modifyHead_modifyHead]
    rfl

/-- **Joined texts are cut apart again.** -/
theorem outerSegments_intercalate {words : List (List Char)} (hne : words ≠ [])
    (hwords : ∀ w ∈ words, Leads sep 0 w 0) :
    outerSegments sep 0 ([sep].intercalate words) = words := by
  induction words with
  | nil => exact absurd rfl hne
  | cons v words ih =>
    have hv := hwords v List.mem_cons_self
    cases words with
    | nil =>
      have hcut := outerSegments_append hv []
      rw [List.append_nil] at hcut
      rw [List.intercalate_singleton, hcut, outerSegments, List.modifyHead_cons, List.append_nil]
    | cons w words =>
      have hrest := ih (List.cons_ne_nil w words) fun u hu => hwords u (List.mem_cons_of_mem v hu)
      rw [List.intercalate_cons_cons, List.append_assoc, outerSegments_append hv,
        List.singleton_append, outerSegments, if_pos ⟨rfl, rfl⟩, List.modifyHead_cons,
        List.append_nil, hrest]

/-- Separators inside of parentheses do not count. -/
example : outerSegments '|' 0 "A|(B|C)[]".toList = ["A".toList, "(B|C)[]".toList] := by decide

end Text

end TypeScribe

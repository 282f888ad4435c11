import Mathlib.Data.List.Nodup
import TypeScribe.Proofs.Text.Row
import TypeScribe.Rendering.DocText
import TypeScribe.Rendering.DocType
/-!
# How doc types are written

A doc type is built as a tree and written afterwards; the short form is
written at once, and puts its array marks behind pieces of text. This file
compares the two on the doc types themselves. Behind single words the
marks come out the same (`IsFlat.arrayText_text`). A row of alternatives
is written the same only if no two different alternatives look alike
(`text_oneOf_eq_iff`), and an array of a union only if no member is a
union itself, since such a member takes a mark for each of its own
alternatives and not one for all (`text_arrayOf_oneOf_eq_iff`).
-/

namespace TypeScribe

namespace DocType

open Text (row barredLength)

variable {d : DocType} {ds : List DocType}

/-! ## Texts -/

/-- A doc type without intersections in which every name has a text and
every union a choice. -/
inductive Sound : DocType → Prop
  | name {s : String} : s ≠ "" → Sound (name s)
  | array {d : DocType} : Sound d → Sound (array d)
  | union {ds : List DocType} : 2 ≤ ds.length → (∀ d ∈ ds, Sound d) → Sound (union ds)

theorem text_union (ds : List DocType) : (union ds).text = row (ds.map text) := by
  rw [text, texts_eq_map]

theorem text_array (hsingle : d.isCompound = false) : (array d).text = d.text ++ "[]" := by
  simp [text, hsingle]

/-- The array mark takes two characters, and parentheses two more. -/
theorem length_text_array (d : DocType) : d.text.length + 2 ≤ (array d).text.length := by
  have hmark : "[]".length = 2 := by decide
  rw [text, String.length_append, hmark]
  split
  · rw [String.length_append, String.length_append]
    omega
  · exact Nat.le_refl _

theorem Sound.isCompound (h : d.Sound) : d.isCompound = d.isUnion := by
  cases h <;> rfl

theorem Sound.text_ne_empty (h : d.Sound) : d.text ≠ "" := by
  cases h with
  | name hname =>
    rw [text]
    exact hname
  | @array d hd =>
    have hlength := length_text_array d
    intro hempty
    rw [hempty, String.length_empty] at hlength
    omega
  | union htwo _ =>
    rw [text_union]
    exact Text.row_ne_empty (by simpa using htwo)

theorem sound_union_map {g : DocType → DocType} (htwo : 2 ≤ ds.length)
    (hg : ∀ d ∈ ds, (g d).Sound) : (union (ds.map g)).Sound := by
  refine .union (by simpa using htwo) fun e he => ?_
  obtain ⟨d, hd, rfl⟩ := List.mem_map.1 he
  exact hg d hd

theorem sound_arrayOfMember (h : d.Sound) : (arrayOfMember d).Sound := by
  cases h with
  | union htwo hds => exact sound_union_map htwo fun d hd => .array (hds d hd)
  | name hname => exact .array (.name hname)
  | array hd => exact .array (.array hd)

theorem sound_arrayOf (h : d.Sound) : (arrayOf d).Sound := by
  cases h with
  | union htwo hds => exact sound_union_map htwo fun d hd => sound_arrayOfMember (hds d hd)
  | name hname => exact .array (.name hname)
  | array hd => exact .array (.array hd)

/-! ## One of several -/

/-- **The two outcomes**: a single doc type, or a union of what is left. -/
theorem oneOf_cases (hne : ds ≠ []) :
    (∃ d, ds.eraseDups = [d] ∧ oneOf ds = d) ∨
    (2 ≤ ds.eraseDups.length ∧ oneOf ds = union ds.eraseDups) := by
  have hkept : ds.eraseDups ≠ [] := mt Distinct.eraseDups_eq_nil_iff.1 hne
  unfold oneOf
  match hds : ds.eraseDups with
  | [] => exact absurd hds hkept
  | [d] => exact .inl ⟨d, rfl, rfl⟩
  | d :: e :: rest => exact .inr ⟨by simp, rfl⟩

theorem sound_oneOf (hne : ds ≠ []) (hds : ∀ d ∈ ds, d.Sound) : (oneOf ds).Sound := by
  rcases oneOf_cases hne with ⟨d, hone, heq⟩ | ⟨htwo, heq⟩
  · rw [heq]
    exact hds d (List.mem_eraseDups.1 (by simp [hone]))
  · rw [heq]
    exact .union htwo fun d hd => hds d (List.mem_eraseDups.1 hd)

/-- In both cases, what is left in a row. -/
theorem text_oneOf (hne : ds ≠ []) : (oneOf ds).text = row (ds.eraseDups.map text) := by
  rcases oneOf_cases hne with ⟨d, hone, heq⟩ | ⟨-, heq⟩
  · simp [heq, hone, row]
  · rw [heq, text_union]

/-- **One of several is written as their texts in a row** exactly if no two
different ones look alike. -/
theorem text_oneOf_eq_iff (hne : ds ≠ []) (hds : ∀ d ∈ ds, d.Sound) :
    Renderer.joinDistinct "|" (ds.map text) = (oneOf ds).text ↔
      ∀ d ∈ ds, ∀ e ∈ ds, d.text = e.text → d = e := by
  have hfilter : (ds.map text).eraseDups.filter (· ≠ "") = (ds.map text).eraseDups := by
    refine List.filter_eq_self.2 fun s hs => ?_
    obtain ⟨d, hd, rfl⟩ := List.mem_map.1 (List.mem_eraseDups.1 hs)
    simpa using (hds d hd).text_ne_empty
  rw [Renderer.joinDistinct, hfilter, text_oneOf hne]
  constructor
  · intro hrow d hd e he
    -- repetitions among the doc types are none among the texts of what is left
    have hkept : (ds.eraseDups.map text).eraseDups = (ds.map text).eraseDups :=
      Distinct.eraseDups_map_eraseDups text ds
    have hnodup : (ds.eraseDups.map text).Nodup := by
      refine Text.nodup_of_row_eraseDups ?_
      rw [hkept]
      exact hrow
    exact List.inj_on_of_nodup_map hnodup (List.mem_eraseDups.2 hd) (List.mem_eraseDups.2 he)
  · intro hapart
    rw [Distinct.eraseDups_map hapart]

/-! ## Arrays of one of several -/

theorem arrayOf_of_isUnion_eq_false (h : d.isUnion = false) : arrayOf d = array d := by
  cases d with
  | union ds => cases h
  | _ => rfl

theorem arrayOfMember_of_isUnion_eq_false (h : d.isUnion = false) : arrayOfMember d = array d := by
  cases d with
  | union ds => cases h
  | _ => rfl

/-- What the two ways of making an array have in common: behind a single
doc type they set one mark, and in a union more than one. -/
structure Marks (g : DocType → DocType) (d : DocType) : Prop where
  text_eq : d.isUnion = false → (g d).text = d.text ++ "[]"
  add_two_le : d.text.length + 2 ≤ (g d).text.length
  add_two_lt : d.isUnion = true → d.text.length + 2 < (g d).text.length

/-- A mark for each member makes a union longer by at least twice two. -/
theorem length_text_union_map {g : DocType → DocType} (htwo : 2 ≤ ds.length)
    (hg : ∀ d ∈ ds, d.text.length + 2 ≤ (g d).text.length) :
    (union ds).text.length + 4 ≤ (union (ds.map g)).text.length := by
  have hne : ds ≠ [] := by
    rintro rfl
    simp at htwo
  have hbefore : (row (ds.map text)).length + 1 = _ := Text.length_row (by simpa using hne)
  have hafter : (row ((ds.map g).map text)).length + 1 = _ := Text.length_row (by simpa using hne)
  have hgrow : barredLength (ds.map text) + 2 * ds.length ≤ barredLength (ds.map (text ∘ g)) :=
    Text.barredLength_map_add_le hg
  rw [List.map_map] at hafter
  rw [text_union, text_union, List.map_map]
  omega

theorem marks_of_sound {g : DocType → DocType} (h : d.Sound)
    (hsingle : d.isUnion = false → g d = array d)
    (hunion : ∀ ds, d = union ds → ∃ f : DocType → DocType, g d = union (ds.map f) ∧
      ∀ e ∈ ds, e.text.length + 2 ≤ (f e).text.length) : Marks g d := by
  cases hd : d.isUnion with
  | false =>
    have hlength := length_text_array d
    rw [← hsingle hd] at hlength
    refine ⟨fun _ => ?_, hlength, fun htrue => absurd (hd.symm.trans htrue) (by decide)⟩
    rw [hsingle hd, text_array (h.isCompound.trans hd)]
  | true =>
    cases h with
    | union htwo _ =>
      obtain ⟨f, hg, hf⟩ := hunion _ rfl
      have hlength := length_text_union_map htwo hf
      rw [← hg] at hlength
      exact ⟨nofun, by omega, fun _ => by omega⟩
    | _ => cases hd

theorem marks_arrayOfMember (h : d.Sound) : Marks arrayOfMember d := by
  refine marks_of_sound h arrayOfMember_of_isUnion_eq_false fun ds hds => ⟨array, ?_, ?_⟩
  · rw [hds, arrayOfMember]
  · exact fun e _ => length_text_array e

theorem marks_arrayOf (h : d.Sound) : Marks arrayOf d := by
  refine marks_of_sound h arrayOf_of_isUnion_eq_false fun ds hds => ⟨arrayOfMember, ?_, ?_⟩
  · rw [hds, arrayOf]
  · subst hds
    cases h with
    | union _ hmembers => exact fun e he => (marks_arrayOfMember (hmembers e he)).add_two_le

/-- An array of one of several is what is left, with marks, in a row. -/
theorem exists_text_arrayOf_oneOf (hne : ds ≠ []) (hds : ∀ d ∈ ds, d.Sound) :
    ∃ g, (∀ d ∈ ds, Marks g d) ∧
      (arrayOf (oneOf ds)).text = row (ds.eraseDups.map fun d => (g d).text) := by
  rcases oneOf_cases hne with ⟨d, hone, heq⟩ | ⟨-, heq⟩
  · refine ⟨arrayOf, fun d hd => marks_arrayOf (hds d hd), ?_⟩
    simp [heq, hone, row]
  · refine ⟨arrayOfMember, fun d hd => marks_arrayOfMember (hds d hd), ?_⟩
    rw [heq, arrayOf, text_union, List.map_map]
    rfl

/-- **Marks behind whole texts are marks inside unions** exactly if there
are no unions. -/
theorem text_arrayOf_oneOf_eq_iff (hne : ds ≠ []) (hds : ∀ d ∈ ds, d.Sound)
    (hapart : ∀ d ∈ ds, ∀ e ∈ ds, d.text = e.text → d = e) :
    Renderer.arraysOf (ds.map text) = (arrayOf (oneOf ds)).text ↔
      ∀ d ∈ ds, d.isUnion = false := by
  obtain ⟨g, hg, htext⟩ := exists_text_arrayOf_oneOf hne hds
  have hmarked : ((ds.map text).map (· ++ "[]")).eraseDups =
      ds.eraseDups.map fun d => d.text ++ "[]" := by
    rw [List.map_map]
    refine Distinct.eraseDups_map fun d hd e he hde => hapart d hd e he ?_
    exact (String.append_left_inj "[]").1 hde
  rw [Renderer.arraysOf, hmarked, htext]
  constructor
  · intro hrow
    have hgrow : ∀ d ∈ ds.eraseDups, (d.text ++ "[]").length ≤ (g d).text.length := by
      intro d hd
      have hle := (hg d (List.mem_eraseDups.1 hd)).add_two_le
      rw [String.length_append]
      exact hle
    intro d hd
    have hlength := Text.length_eq_of_row_eq hgrow hrow (List.mem_eraseDups.2 hd)
    rw [String.length_append] at hlength
    by_contra hunion
    have hmore := (hg d hd).add_two_lt (by simpa using hunion)
    exact absurd hlength (Nat.ne_of_lt hmore)
  · intro hsingle
    have hsame : ∀ d ∈ ds.eraseDups, d.text ++ "[]" = (g d).text := by
      intro d hd
      have hmem := List.mem_eraseDups.1 hd
      exact ((hg d hmem).text_eq (hsingle d hmem)).symm
    rw [List.map_congr_left hsame]

/-! ## Arrays of what is written already -/

/-- A doc type that is written as one word. -/
structure IsWord (d : DocType) : Prop where
  isCompound : d.isCompound = false
  text : Text.IsWord d.text

/-- A word, or a union of words. -/
inductive IsFlat : DocType → Prop
  | word {d : DocType} : d.IsWord → IsFlat d
  | union {ds : List DocType} : ds ≠ [] → (∀ d ∈ ds, d.IsWord) → IsFlat (union ds)

theorem IsWord.isUnion (h : d.IsWord) : d.isUnion = false := by
  cases d with
  | union ds => exact h.isCompound
  | _ => rfl

theorem IsFlat.isWord (h : d.IsFlat) (hsingle : d.isUnion = false) : d.IsWord := by
  cases h with
  | word hword => exact hword
  | union _ _ => cases hsingle

theorem IsWord.array (h : d.IsWord) : (array d).IsWord := by
  refine ⟨rfl, ?_⟩
  rw [text_array h.isCompound]
  exact h.text.append (by decide)

theorem isFlat_oneOf (hne : ds ≠ []) (hds : ∀ d ∈ ds, d.IsWord) : (oneOf ds).IsFlat := by
  rcases oneOf_cases hne with ⟨d, hone, heq⟩ | ⟨htwo, heq⟩
  · rw [heq]
    exact .word (hds d (List.mem_eraseDups.1 (by simp [hone])))
  · rw [heq]
    refine .union ?_ fun d hd => hds d (List.mem_eraseDups.1 hd)
    exact List.ne_nil_of_length_pos (by omega)

/-- Arrays of flat doc types are flat. -/
theorem IsFlat.arrayOf (h : d.IsFlat) : d.arrayOf.IsFlat := by
  cases h with
  | word hword =>
    rw [arrayOf_of_isUnion_eq_false hword.isUnion]
    exact .word hword.array
  | @union ds hne hds =>
    refine .union (by simpa using hne) fun e he => ?_
    obtain ⟨d, hd, rfl⟩ := List.mem_map.1 he
    rw [arrayOfMember_of_isUnion_eq_false (hds d hd).isUnion]
    exact (hds d hd).array

/-- Words in a row are found again, and each gets its mark. -/
theorem arrayText_row {words : List String} (hne : words ≠ [])
    (hwords : ∀ w ∈ words, Text.IsWord w) :
    Renderer.arrayText (row words) = row (words.map (· ++ "[]")) := by
  have hcut : Text.segments '|' (row words).toList = words.map String.toList := by
    rw [String.toList_intercalate]
    refine Text.segments_intercalate (by simpa using hne) fun part hpart => ?_
    obtain ⟨w, hw, rfl⟩ := List.mem_map.1 hpart
    exact (hwords w hw).bar_not_mem
  have hkeep : (words.map String.toList).filter (· ≠ []) = words.map String.toList := by
    refine List.filter_eq_self.2 fun part hpart => ?_
    obtain ⟨w, hw, rfl⟩ := List.mem_map.1 hpart
    simpa using (hwords w hw).ne_empty
  rw [Renderer.arrayText, hcut, hkeep, List.map_map]
  simp only [Function.comp_def, String.ofList_toList]

/-- **Behind words the marks come out the same**, set in the text or in the
tree. -/
theorem IsFlat.arrayText_text (h : d.IsFlat) : Renderer.arrayText d.text = d.arrayOf.text := by
  cases h with
  | word hword =>
    have hrow := arrayText_row (List.cons_ne_nil d.text []) (by simpa using hword.text)
    rw [arrayOf_of_isUnion_eq_false hword.isUnion, text_array hword.isCompound]
    simpa [row] using hrow
  | @union ds hne hds =>
    have hmarks : ds.map (fun d => d.text ++ "[]") = ds.map fun d => d.arrayOfMember.text :=
      List.map_congr_left fun d hd => by
        rw [arrayOfMember_of_isUnion_eq_false (hds d hd).isUnion, text_array (hds d hd).isCompound]
    rw [text_union, arrayText_row (by simpa using hne), DocType.arrayOf, text_union, List.map_map,
      List.map_map]
    · exact congrArg row hmarks
    · intro w hw
      obtain ⟨d, hd, rfl⟩ := List.mem_map.1 hw
      exact (hds d hd).text

end DocType

end TypeScribe

import Mathlib.Data.List.Find
import TypeScribe.Proofs.Classes.NameTable
import TypeScribe.Proofs.Distinct
/-!
# The numbers names get

What a table answers is settled by the entries made so far. `Records` says
how, of the history of a table: the names in the order they were entered,
each with the symbol it got. One more entry keeps the record
(`Records.intern`), so it holds after any number of them, and everything a
table can be asked is read off it.
-/

namespace TypeScribe

namespace NameTable

variable {table : NameTable} {history : List (String × Symbol)} {name : String} {s : Symbol}

/-- The table is what a history of entries has made of the empty one. -/
structure Records (table : NameTable) (history : List (String × Symbol)) : Prop where
  /-- Every name still has the symbol it got. -/
  symbol : ∀ x ∈ history, table.symbol? x.1 = some x.2
  /-- The symbols were given out in the order of their numbers. -/
  order : (history.map Prod.snd).eraseDups = (List.range table.size).map Symbol.mk
  /-- A symbol is spelled as by the first name that got it. -/
  spelling : ∀ s, table.spelling? s = (history.find? (·.2 = s)).map Prod.fst

theorem records_empty : empty.Records [] where
  symbol _ hx := absurd hx List.not_mem_nil
  order := rfl
  spelling _ := rfl

/-- The symbols given out are those below the size. -/
theorem Records.mem_symbols_iff (h : table.Records history) :
    s ∈ history.map Prod.snd ↔ s.index < table.size := by
  rw [← List.mem_eraseDups, h.order, List.mem_map]
  constructor
  · rintro ⟨i, hi, rfl⟩
    exact List.mem_range.1 hi
  · intro hlt
    exact ⟨s.index, List.mem_range.2 hlt, rfl⟩

/-- Without a spelling there was no name to get the symbol. -/
theorem Records.find?_eq_none_iff (h : table.Records history) :
    history.find? (·.2 = s) = none ↔ table.size ≤ s.index := by
  rw [← Nat.not_lt, ← h.mem_symbols_iff, List.find?_eq_none, List.mem_map]
  constructor
  · rintro hnone ⟨x, hx, rfl⟩
    exact hnone x hx (decide_eq_true rfl)
  · intro hnot x hx hs
    exact hnot ⟨x, hx, of_decide_eq_true hs⟩

/-! ## One entry more -/

/-- A known name gets the symbol it has, and nothing else changes. -/
theorem Records.again (h : table.Records history) (hname : table.symbol? name = some s) :
    table.Records (history ++ [(name, s)]) := by
  obtain ⟨known, hknown, -⟩ := symbol?_eq_some_iff.1 hname
  have hlt : s.index < table.size := (List.getElem?_eq_some_iff.1 hknown).1
  have hgiven : s ∈ history.map Prod.snd := h.mem_symbols_iff.2 hlt
  refine ⟨fun x hx => ?_, ?_, fun t => ?_⟩
  · rcases List.mem_append.1 hx with hx | hx
    · exact h.symbol x hx
    · rw [List.mem_singleton.1 hx]
      exact hname
  · rw [List.map_append, List.map_singleton, Distinct.eraseDups_concat, if_pos hgiven, h.order]
  · rw [h.spelling t, List.find?_append]
    cases hfind : history.find? (·.2 = t) with
    | some x => rfl
    | none =>
      -- a symbol no name got so far is not the one of this name
      have hfree : table.size ≤ t.index := h.find?_eq_none_iff.1 hfind
      have hne : s ≠ t := by
        rintro rfl
        omega
      simp [hne]

/-- A new name gets the next number, and is how its symbol is spelled. -/
theorem Records.fresh (h : table.Records history) (hname : table.symbol? name = none) :
    (table.intern name).2.Records (history ++ [(name, ⟨table.size⟩)]) := by
  have hspellings : (table.intern name).2.spellings = table.spellings ++ [name] := by
    rw [spellings_intern, if_pos hname]
  have hsize : (table.intern name).2.size = table.size + 1 := by
    rw [size, hspellings, List.length_append]
    rfl
  have hself := symbol?_intern_self table name
  rw [fst_intern_of_symbol? hname] at hself
  refine ⟨fun x hx => ?_, ?_, fun t => ?_⟩
  · rcases List.mem_append.1 hx with hx | hx
    · exact symbol?_intern_of_symbol? (h.symbol x hx) name
    · rw [List.mem_singleton.1 hx]
      exact hself
  · have hnew : (⟨table.size⟩ : Symbol) ∉ history.map Prod.snd := by
      rw [h.mem_symbols_iff]
      exact Nat.lt_irrefl _
    rw [List.map_append, List.map_singleton, Distinct.eraseDups_concat, if_neg hnew, h.order, hsize,
      List.range_succ, List.map_append, List.map_singleton]
  · rw [List.find?_append]
    cases hfind : history.find? (·.2 = t) with
    | some x =>
      have hold : table.spelling? t = some x.1 := by rw [h.spelling t, hfind, Option.map_some]
      exact spelling?_intern_of_spelling? hold name
    | none =>
      obtain ⟨i⟩ := t
      have hfree : table.spellings.length ≤ i := h.find?_eq_none_iff.1 hfind
      rw [spelling?, hspellings, List.getElem?_append_right hfree]
      rcases Nat.eq_or_lt_of_le hfree with rfl | hlt
      · simp [size]
      · have hne : table.size ≠ i := Nat.ne_of_lt hlt
        have hbeyond : i - table.spellings.length ≠ 0 := by omega
        simp [hne, hbeyond]

/-- **One entry keeps the record.** -/
theorem Records.intern (h : table.Records history) (name : String) :
    (table.intern name).2.Records (history ++ [(name, (table.intern name).1)]) := by
  cases hname : table.symbol? name with
  | some s =>
    rw [intern_of_symbol? hname]
    exact h.again hname
  | none =>
    rw [fst_intern_of_symbol? hname]
    exact h.fresh hname

/-- **So do several entries**, each of which adds its name with the symbol
it was answered. -/
theorem Records.internAll (h : table.Records history) (names : List String) :
    (table.internAll names).2.Records (history ++ names.zip (table.internAll names).1) := by
  induction names generalizing table history with
  | nil =>
    rw [List.zip_nil_left, List.append_nil]
    exact h
  | cons name names ih =>
    have hrest := ih (h.intern name)
    rwa [List.append_assoc] at hrest

/-! ## What the record tells -/

/-- Names of one class, and only these, got one symbol. -/
theorem Records.symbol_eq_iff (h : table.Records history) {x y : String × Symbol}
    (hx : x ∈ history) (hy : y ∈ history) : x.2 = y.2 ↔ Text.SameName x.1 y.1 := by
  have hsx := h.symbol x hx
  have hsy := h.symbol y hy
  constructor
  · intro hsame
    rw [hsame] at hsx
    exact sameName_of_symbol? hsx hsy
  · intro hsame
    rw [symbol?_congr table hsame, hsy] at hsx
    exact (Option.some.inj hsx).symm

/-- A symbol that was given out is spelled as the first name of its class
that was entered. -/
theorem Records.exists_spelling? (h : table.Records history) {x : String × Symbol}
    (hx : x ∈ history) : ∃ first,
      (history.map Prod.fst).find? (Text.SameName · x.1) = some first ∧
        table.spelling? x.2 = some first := by
  have hclass : history.find? (fun y => Text.SameName y.1 x.1) = history.find? (·.2 = x.2) := by
    refine List.find?_congr fun y hy => ?_
    rw [decide_eq_decide]
    exact (h.symbol_eq_iff hy hx).symm
  have hlt : x.2.index < table.size := h.mem_symbols_iff.1 (List.mem_map_of_mem hx)
  obtain ⟨y, hy⟩ : ∃ y, history.find? (·.2 = x.2) = some y :=
    Option.ne_none_iff_exists'.1 fun hnone => Nat.not_le.2 hlt (h.find?_eq_none_iff.1 hnone)
  refine ⟨y.1, ?_, by rw [h.spelling, hy, Option.map_some]⟩
  rw [List.find?_map, Function.comp_def, hclass, hy, Option.map_some]

/-- A name has a symbol if a spelling of it got that symbol. -/
theorem Records.symbol?_eq_some_iff (h : table.Records history) :
    table.symbol? name = some s ↔ ∃ x ∈ history, Text.SameName x.1 name ∧ x.2 = s := by
  constructor
  · intro hs
    obtain ⟨known, hknown, hsame⟩ := NameTable.symbol?_eq_some_iff.1 hs
    rw [h.spelling, Option.map_eq_some_iff] at hknown
    obtain ⟨x, hx, rfl⟩ := hknown
    exact ⟨x, List.mem_of_find?_eq_some hx, hsame, by simpa using List.find?_some hx⟩
  · rintro ⟨x, hx, hsame, rfl⟩
    rw [← symbol?_congr table hsame]
    exact h.symbol x hx

/-! ## Listing and going on -/

/-- The listing has the symbols below the size, in order. -/
theorem map_fst_toList (table : NameTable) :
    table.toList.map Prod.fst = (List.range table.size).map Symbol.mk := by
  have hplaces : table.spellings.zipIdx.map Prod.snd = List.range table.size := by
    rw [List.zipIdx_map_snd, List.range_eq_range', size]
  rw [toList, List.map_map, ← hplaces, List.map_map]
  rfl

/-- It has every symbol with its spelling. -/
theorem mem_toList : (s, name) ∈ table.toList ↔ table.spelling? s = some name := by
  rw [toList, List.mem_map]
  constructor
  · rintro ⟨entry, hentry, heq⟩
    obtain ⟨rfl, rfl⟩ := Prod.mk.inj heq
    exact List.mem_zipIdx_iff_getElem?.1 hentry
  · intro hspelling
    exact ⟨(name, s.index), List.mem_zipIdx_iff_getElem?.2 hspelling, rfl⟩

theorem spelling?_internAll_of_spelling? (h : table.spelling? s = some name)
    (names : List String) : (table.internAll names).2.spelling? s = some name := by
  induction names generalizing table with
  | nil => exact h
  | cons other names ih => exact ih (spelling?_intern_of_spelling? h other)

/-- **A table numbers the classes whose names it was given**, whatever the
sequence of entries. Two names get one symbol if they name one class, and
only then. The symbols are the numbers below the size, each given out for
the first time when its turn has come. The listing goes through them in
this order, each with the first spelling of its class that was entered,
and so the symbol is resolved. A name is found if a spelling of its class
was entered, under the symbol that one got. Whatever is entered later
leaves the symbols and the spellings as they are. -/
theorem numbering (names : List String) :
    ∃ symbols table, empty.internAll names = (symbols, table) ∧ symbols.length = names.length ∧
      (∀ x ∈ names.zip symbols, ∀ y ∈ names.zip symbols, x.2 = y.2 ↔ Text.SameName x.1 y.1) ∧
      symbols.eraseDups = (List.range table.size).map Symbol.mk ∧
      table.toList.map Prod.fst = symbols.eraseDups ∧
      (∀ x ∈ names.zip symbols, ∃ first, names.find? (Text.SameName · x.1) = some first ∧
        (x.2, first) ∈ table.toList ∧ table.spelling? x.2 = some first) ∧
      (∀ name s, table.symbol? name = some s ↔
        ∃ x ∈ names.zip symbols, Text.SameName x.1 name ∧ x.2 = s) ∧
      ∀ more, ∃ later grown, empty.internAll (names ++ more) = (symbols ++ later, grown) ∧
        (∀ name s, table.symbol? name = some s → grown.symbol? name = some s) ∧
        ∀ s known, table.spelling? s = some known → grown.spelling? s = some known := by
  have hlength := length_internAll empty names
  have hrecords := records_empty.internAll names
  have hmore := internAll_append empty names
  generalize empty.internAll names = run at hlength hrecords hmore
  obtain ⟨symbols, table⟩ := run
  rw [List.nil_append] at hrecords
  have horder := hrecords.order
  rw [List.map_snd_zip (Nat.le_of_eq hlength)] at horder
  refine ⟨symbols, table, rfl, hlength, fun x hx y hy => hrecords.symbol_eq_iff hx hy, horder,
    (map_fst_toList table).trans horder.symm, fun x hx => ?_,
    fun name s => hrecords.symbol?_eq_some_iff, fun more => ?_⟩
  · obtain ⟨first, hfirst, hspelling⟩ := hrecords.exists_spelling? hx
    rw [List.map_fst_zip (Nat.le_of_eq hlength.symm)] at hfirst
    exact ⟨first, hfirst, mem_toList.2 hspelling, hspelling⟩
  · exact ⟨_, _, hmore more, fun name s hs => symbol?_internAll_of_symbol? hs more,
      fun s known hknown => spelling?_internAll_of_spelling? hknown more⟩

end NameTable

end TypeScribe

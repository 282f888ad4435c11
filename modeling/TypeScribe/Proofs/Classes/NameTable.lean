import TypeScribe.Classes.NameTable
/-!
# Which names a table knows

A symbol stands for a class: two names have one symbol only if they are
spellings of one class, and spellings of one class have one symbol. An
entry keeps every symbol there is, so after several entries the symbols
given out are still those of the names they were given to.
-/

namespace TypeScribe

namespace NameTable

variable {table : NameTable} {a b : String} {s : Symbol}

/-- A name is known once some spelling of it was entered. -/
def Knows (table : NameTable) (name : String) : Prop :=
  ∃ known ∈ table.spellings, Text.SameName known name

/-- Just the known names have symbols. -/
theorem knows_iff_exists_symbol? : table.Knows a ↔ ∃ s, table.symbol? a = some s := by
  constructor
  · rintro ⟨known, hknown, hsame⟩
    cases hs : table.symbol? a with
    | some s => exact ⟨s, rfl⟩
    | none => exact absurd hsame (not_sameName_of_symbol? hs known hknown)
  · rintro ⟨s, hs⟩
    obtain ⟨known, hknown, hsame⟩ := symbol?_eq_some_iff.1 hs
    exact ⟨known, List.mem_of_getElem? hknown, hsame⟩

theorem not_knows_empty (name : String) : ¬ empty.Knows name := by
  rintro ⟨known, hknown, -⟩
  exact List.not_mem_nil hknown

/-- Spellings of one class have one symbol. -/
theorem symbol?_congr (table : NameTable) (h : Text.SameName a b) :
    table.symbol? a = table.symbol? b := by
  rw [symbol?, symbol?, h]

/-- **One symbol stands for one class.** -/
theorem sameName_of_symbol? (ha : table.symbol? a = some s) (hb : table.symbol? b = some s) :
    Text.SameName a b := by
  obtain ⟨known, hknown, hsame⟩ := symbol?_eq_some_iff.1 ha
  obtain ⟨known', hknown', hsame'⟩ := symbol?_eq_some_iff.1 hb
  obtain rfl : known = known' := Option.some.inj (hknown.symm.trans hknown')
  exact hsame.symm.trans hsame'

/-! ## After an entry -/

theorem knows_intern (table : NameTable) (name : String) :
    (table.intern name).2.Knows a ↔ table.Knows a ∨ Text.SameName name a := by
  unfold Knows
  rw [spellings_intern]
  split
  · simp [or_and_right, exists_or]
  · rename_i hknown
    obtain ⟨s, hs⟩ := Option.ne_none_iff_exists'.1 hknown
    obtain ⟨known, hmem, hsame⟩ := knows_iff_exists_symbol?.2 ⟨s, hs⟩
    refine (or_iff_left_of_imp fun h => ?_).symm
    exact ⟨known, hmem, hsame.trans h⟩

/-- Known names keep their symbols when several others are entered. -/
theorem symbol?_internAll_of_symbol? (h : table.symbol? a = some s) (names : List String) :
    (table.internAll names).2.symbol? a = some s := by
  induction names generalizing table with
  | nil => exact h
  | cons name names ih => exact ih (symbol?_intern_of_symbol? h name)

theorem knows_internAll (table : NameTable) (names : List String) :
    (table.internAll names).2.Knows a ↔
      table.Knows a ∨ ∃ name ∈ names, Text.SameName name a := by
  induction names generalizing table with
  | nil => simp [internAll]
  | cons name names ih =>
    have hrest := ih (table.intern name).2
    rw [knows_intern] at hrest
    simp only [List.mem_cons, exists_eq_or_imp, ← or_assoc]
    exact hrest

theorem length_internAll (table : NameTable) (names : List String) :
    (table.internAll names).1.length = names.length := by
  induction names generalizing table with
  | nil => rfl
  | cons name names ih => exact congrArg (· + 1) (ih (table.intern name).2)

/-- **The symbols given out are those of the names afterwards.** -/
theorem fst_internAll (table : NameTable) (names : List String) :
    (table.internAll names).1 = names.filterMap (table.internAll names).2.symbol? := by
  induction names generalizing table with
  | nil => rfl
  | cons name names ih =>
    have hself : (table.internAll (name :: names)).2.symbol? name = some (table.intern name).1 :=
      symbol?_internAll_of_symbol? (symbol?_intern_self table name) names
    rw [List.filterMap_cons_some hself]
    exact congrArg _ (ih (table.intern name).2)

theorem internAll_append (table : NameTable) (names more : List String) :
    table.internAll (names ++ more) =
      ((table.internAll names).1 ++ ((table.internAll names).2.internAll more).1,
        ((table.internAll names).2.internAll more).2) := by
  induction names generalizing table with
  | nil => rfl
  | cons name names ih => simp only [List.cons_append, internAll, ih]

end NameTable

end TypeScribe

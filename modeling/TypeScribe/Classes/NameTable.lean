import TypeScribe.Text.Fold
/-!
# Numbered class names

A name table gives each class name a number, its symbol, in the order of
first appearance. All spellings of one class (`Text.SameName`) share a
symbol, and the table answers with the spelling it saw first. It keeps two
lists that are extended together: the folded names with their symbols, to
find a name by, and the first spellings, in which a symbol is a place.
`agree` says that each list undoes the other, up to the fold.
-/

namespace TypeScribe

/-- A number that stands for a class name. -/
structure Symbol where
  /-- The place among the names, in order of first appearance. -/
  index : Nat
deriving DecidableEq, Repr

instance : Ord Symbol := ⟨fun s t => compare s.index t.index⟩

/-- The class names met so far, each in its first spelling. -/
structure NameTable where
  /-- The folded names, each with its symbol. -/
  symbols : List (String × Symbol)
  /-- The first spellings, in order of appearance. -/
  spellings : List String
  /-- A folded name has the symbol at whose place a spelling of it stands. -/
  agree : ∀ key s, symbols.lookup key = some s ↔ (spellings.map Text.fold)[s.index]? = some key
deriving DecidableEq, Repr

namespace NameTable

/-- The table that has met no name. -/
def empty : NameTable := ⟨[], [], by simp⟩

instance : Inhabited NameTable := ⟨empty⟩

/-- The symbol of a name that was met, in whatever spelling. -/
def symbol? (table : NameTable) (name : String) : Option Symbol :=
  table.symbols.lookup (Text.fold name)

/-- The first spelling of a symbol; a symbol of another table may have none. -/
def spelling? (table : NameTable) (s : Symbol) : Option String :=
  table.spellings[s.index]?

/-- How many classes have been met. -/
def size (table : NameTable) : Nat := table.spellings.length

/-- Every symbol with its first spelling, in order. -/
def toList (table : NameTable) : List (Symbol × String) :=
  table.spellings.zipIdx.map fun entry => (⟨entry.2⟩, entry.1)

/-- **A symbol is a name's if its spelling is one of the name.** -/
theorem symbol?_eq_some_iff {table : NameTable} {name : String} {s : Symbol} :
    table.symbol? name = some s ↔
      ∃ known, table.spelling? s = some known ∧ Text.SameName known name := by
  rw [symbol?, table.agree, List.getElem?_map, Option.map_eq_some_iff]
  rfl

/-- A name without a symbol is no spelling of any name in the table. -/
theorem not_sameName_of_symbol? {table : NameTable} {name : String}
    (h : table.symbol? name = none) : ∀ known ∈ table.spellings, ¬ Text.SameName known name := by
  intro known hknown hsame
  obtain ⟨i, hi⟩ := List.mem_iff_getElem?.1 hknown
  have hfound : table.symbol? name = some ⟨i⟩ := symbol?_eq_some_iff.2 ⟨known, hi, hsame⟩
  rw [h] at hfound
  cases hfound

/-- What stands where in a list with one entry more. -/
theorem getElem?_concat_eq_some_iff {l : List String} {a b : String} {i : Nat} :
    (l ++ [a])[i]? = some b ↔ l[i]? = some b ∨ i = l.length ∧ a = b := by
  rcases Nat.lt_trichotomy i l.length with hi | rfl | hi
  · simp [List.getElem?_append_left hi, Nat.ne_of_lt hi]
  · simp
  · have hend : (l ++ [a]).length ≤ i := by
      rw [List.length_append, List.length_singleton]
      exact hi
    simp [List.getElem?_eq_none hend, Nat.le_of_lt hi, Nat.ne_of_gt hi]

/-- A name without a symbol may be added to both lists. -/
theorem agree_append {table : NameTable} {name : String} (h : table.symbol? name = none)
    (key : String) (s : Symbol) :
    ((Text.fold name, ⟨table.size⟩) :: table.symbols).lookup key = some s ↔
      ((table.spellings ++ [name]).map Text.fold)[s.index]? = some key := by
  rw [List.map_append, List.map_singleton, getElem?_concat_eq_some_iff, ← table.agree,
    List.length_map]
  by_cases hkey : key = Text.fold name
  · have hfree : table.symbols.lookup (Text.fold name) = none := h
    subst hkey
    obtain ⟨i⟩ := s
    simp [hfree, size, eq_comm]
  · have hother : (key == Text.fold name) = false := beq_eq_false_iff_ne.2 hkey
    simp [List.lookup_cons, hother, Ne.symm hkey]

/-- The symbol of a name, which is entered at the end if it is new. -/
def intern (table : NameTable) (name : String) : Symbol × NameTable :=
  match h : table.symbol? name with
  | some s => (s, table)
  | none => (⟨table.size⟩, ⟨(Text.fold name, ⟨table.size⟩) :: table.symbols,
      table.spellings ++ [name], agree_append h⟩)

/-- The symbols of several names, entered from left to right. -/
def internAll (table : NameTable) : List String → List Symbol × NameTable
  | [] => ([], table)
  | name :: rest =>
    let (s, table) := table.intern name
    let (more, table) := table.internAll rest
    (s :: more, table)

/-! ## What a name's entry leaves unchanged -/

theorem intern_of_symbol? {table : NameTable} {name : String} {s : Symbol}
    (h : table.symbol? name = some s) : table.intern name = (s, table) := by
  unfold intern
  split <;> simp_all

/-- A new name gets the first symbol that is free. -/
theorem fst_intern_of_symbol? {table : NameTable} {name : String}
    (h : table.symbol? name = none) : (table.intern name).1 = ⟨table.size⟩ := by
  unfold intern
  split <;> simp_all

/-- The spellings after an entry: as before, or one more at the end. -/
theorem spellings_intern (table : NameTable) (name : String) :
    (table.intern name).2.spellings =
      if table.symbol? name = none then table.spellings ++ [name] else table.spellings := by
  unfold intern
  split <;> simp_all

/-- **No entry moves another spelling.** -/
theorem spelling?_intern_of_spelling? {table : NameTable} {known : String} {s : Symbol}
    (h : table.spelling? s = some known) (name : String) :
    (table.intern name).2.spelling? s = some known := by
  obtain ⟨hlt, -⟩ := List.getElem?_eq_some_iff.1 h
  rw [spelling?, spellings_intern]
  split
  · rwa [List.getElem?_append_left hlt]
  · exact h

/-- **Entering a name finds it again.** -/
theorem symbol?_intern_self (table : NameTable) (name : String) :
    (table.intern name).2.symbol? name = some (table.intern name).1 := by
  unfold intern
  split
  · assumption
  · exact List.lookup_cons_self

/-- **No entry moves another name**: what had a symbol keeps it. -/
theorem symbol?_intern_of_symbol? {table : NameTable} {other : String} {s : Symbol}
    (h : table.symbol? other = some s) (name : String) :
    (table.intern name).2.symbol? other = some s := by
  obtain ⟨known, hknown, hsame⟩ := symbol?_eq_some_iff.1 h
  exact symbol?_eq_some_iff.2 ⟨known, spelling?_intern_of_spelling? hknown name, hsame⟩

end NameTable

end TypeScribe

import TypeScribe.Proofs.Classes.Declarations
import TypeScribe.Proofs.Classes.Numbering
/-!
# What a hierarchy lists

The rows of a hierarchy are numbers. Spelled out they are the declarations
again, merged: a row for each class that was declared, in the order of
first declaration, with the supertypes given for it in any spelling, and
every name in the spelling it was first met in, be it as a class or as a
supertype (`map_spelling?_parents`). So no number in a row is without a
name, no class is listed twice and no supertype is repeated.
-/

namespace TypeScribe

namespace Hierarchy

/-! ## The declarations, merged -/

/-- The spelling in which a class was first given, by its folded name. -/
def firstSpelling? (ds : List (String × List String)) (key : String) : Option String :=
  (givenNames ds).find? (Text.fold · = key)

/-- The folded names of the classes declared, by their first declarations. -/
def declaredKeys (ds : List (String × List String)) : List String :=
  (ds.map fun d => Text.fold d.1).eraseDups

/-- The folded names of the supertypes given for a class in any spelling of
it, each where it is given first. -/
def supertypeKeys (ds : List (String × List String)) (key : String) : List String :=
  (((ds.filter fun d => Text.fold d.1 = key).flatMap Prod.snd).map Text.fold).eraseDups

variable {h : Hierarchy} {ds : List (String × List String)} {name : String} {s : Symbol}

/-- A name that is given has a first spelling, which is one of its own. -/
theorem exists_firstSpelling? (hname : name ∈ givenNames ds) :
    ∃ first ∈ givenNames ds, firstSpelling? ds (Text.fold name) = some first ∧
      Text.SameName first name := by
  have hsome : (firstSpelling? ds (Text.fold name)).isSome = true :=
    List.find?_isSome.2 ⟨name, hname, decide_eq_true rfl⟩
  obtain ⟨first, hfirst⟩ := Option.isSome_iff_exists.1 hsome
  have hsame : Text.fold first = Text.fold name := by simpa using List.find?_some hfirst
  exact ⟨first, List.mem_of_find?_eq_some hfirst, hfirst, hsame⟩

/-! ## From symbols to spellings -/

/-- Where nothing is missing, nothing is left out. -/
theorem map_some_filterMap {α β : Type} {f : α → Option β} {l : List α}
    (hsome : ∀ a ∈ l, ∃ b, f a = some b) : (l.filterMap f).map some = l.map f := by
  induction l with
  | nil => rfl
  | cons a l ih =>
    obtain ⟨b, hb⟩ := hsome a (by simp)
    rw [List.filterMap_cons_some hb, List.map_cons, List.map_cons, hb,
      ih fun c hc => hsome c (by simp [hc])]

/-- **A symbol is spelled as its class was first given.** -/
theorem Represents.spelling?_of_symbol? (hrep : h.Represents ds)
    (hs : h.names.symbol? name = some s) :
    h.names.spelling? s = firstSpelling? ds (Text.fold name) := by
  have hrecords := NameTable.records_empty.internAll (givenNames ds)
  have hlength := NameTable.length_internAll .empty (givenNames ds)
  rw [List.nil_append, ← hrep.names] at hrecords
  obtain ⟨x, hx, hsame, rfl⟩ := hrecords.symbol?_eq_some_iff.1 hs
  obtain ⟨first, hfirst, hspelling⟩ := hrecords.exists_spelling? hx
  rw [List.map_fst_zip (Nat.le_of_eq hlength.symm)] at hfirst
  rw [hspelling, firstSpelling?, ← hsame]
  exact hfirst.symm

/-- **What is known of a class by its symbol and by its folded name** can be
listed by either: the symbols of given names, each once, are in the order
of their folds, each once. -/
theorem Represents.map_eraseDups {α : Type} (hrep : h.Represents ds) {names : List String}
    (hnames : ∀ name ∈ names, name ∈ givenNames ds) {f : Symbol → α} {g : String → α}
    (hfg : ∀ name s, h.names.symbol? name = some s → f s = g (Text.fold name)) :
    (names.filterMap h.names.symbol?).eraseDups.map f = (names.map Text.fold).eraseDups.map g := by
  have hsymbol : ∀ name ∈ names, ∃ s, h.names.symbol? name = some s :=
    fun name hname => hrep.exists_symbol? (hnames name hname)
  -- a name has its symbol by its fold, and different folds have different symbols
  have hapart : ∀ a ∈ names.map Text.fold, ∀ b ∈ names.map Text.fold,
      h.names.symbols.lookup a = h.names.symbols.lookup b → a = b := by
    intro a ha b hb hab
    obtain ⟨x, hx, rfl⟩ := List.mem_map.1 ha
    obtain ⟨y, -, rfl⟩ := List.mem_map.1 hb
    obtain ⟨s, hs⟩ := hsymbol x hx
    exact NameTable.sameName_of_symbol? hs (hab.symm.trans hs)
  have hkeys : (names.filterMap h.names.symbol?).eraseDups.map some =
      (names.map Text.fold).eraseDups.map (h.names.symbols.lookup ·) := by
    rw [← Distinct.eraseDups_map fun a _ b _ => Option.some.inj, map_some_filterMap hsymbol,
      ← Distinct.eraseDups_map hapart, List.map_map]
    rfl
  apply List.map_injective_iff.2 fun a b => Option.some.inj
  calc ((names.filterMap h.names.symbol?).eraseDups.map f).map some
      = ((names.filterMap h.names.symbol?).eraseDups.map some).map (Option.map f) := by
        rw [List.map_map, List.map_map]
        rfl
    _ = ((names.map Text.fold).eraseDups.map (h.names.symbols.lookup ·)).map (Option.map f) := by
        rw [hkeys]
    _ = ((names.map Text.fold).eraseDups.map g).map some := by
        rw [List.map_map, List.map_map]
        refine List.map_congr_left fun key hkey => ?_
        obtain ⟨name, hname, rfl⟩ := List.mem_map.1 (List.mem_eraseDups.1 hkey)
        obtain ⟨s, hs⟩ := hsymbol name hname
        have hlookup : h.names.symbols.lookup (Text.fold name) = some s := hs
        rw [Function.comp_apply, Function.comp_apply, hlookup, Option.map_some, hfg name s hs]

/-! ## The rows -/

theorem Represents.nodup_keys (hrep : h.Represents ds) : (h.parents.map Prod.fst).Nodup := by
  rw [hrep.keys]
  exact Distinct.nodup_eraseDups _

/-- No class has a supertype twice. -/
theorem Represents.nodup_parentsOf (hrep : h.Represents ds) (s : Symbol) :
    (h.parentsOf s).Nodup := by
  rw [hrep.supers s]
  exact Distinct.nodup_eraseDups _

/-- Since no class has two rows, its supertypes are those of its row. -/
theorem Represents.parentsOf_of_mem (hrep : h.Represents ds) {row : Symbol × List Symbol}
    (hrow : row ∈ h.parents) : h.parentsOf row.1 = row.2 := by
  obtain ⟨before, after, heq⟩ := List.append_of_mem hrow
  have hnodup := hrep.nodup_keys
  rw [heq, List.map_append, List.map_cons, List.nodup_append] at hnodup
  have hlookup : h.parents.lookup row.1 = some row.2 := by
    refine List.lookup_eq_some_iff.2 ⟨before, after, heq, fun p hp => bne_iff_ne.2 fun hkey => ?_⟩
    exact hnodup.2.2 p.1 (List.mem_map_of_mem hp) row.1 List.mem_cons_self hkey.symm
  rw [parentsOf, hlookup, Option.getD_some]

/-- The class of a row is one that was declared. -/
theorem Represents.exists_of_mem_parents (hrep : h.Represents ds) {row : Symbol × List Symbol}
    (hrow : row ∈ h.parents) : ∃ d ∈ ds, h.names.symbol? d.1 = some row.1 := by
  have hkey : row.1 ∈ h.parents.map Prod.fst := List.mem_map_of_mem hrow
  rw [hrep.keys, List.mem_eraseDups, List.mem_filterMap] at hkey
  obtain ⟨name, hname, hs⟩ := hkey
  obtain ⟨d, hd, rfl⟩ := List.mem_map.1 hname
  exact ⟨d, hd, hs⟩

/-- The declarations of a class are those that give its fold. -/
theorem filter_symbol? (hs : h.names.symbol? name = some s) :
    (ds.filter fun d => h.names.symbol? d.1 = some s) =
      ds.filter fun d => Text.fold d.1 = Text.fold name := by
  refine List.filter_congr fun d _ => ?_
  rw [decide_eq_decide]
  constructor
  · intro hd
    exact NameTable.sameName_of_symbol? hd hs
  · intro hsame
    rw [NameTable.symbol?_congr h.names hsame, hs]

/-- The supertypes of a class, spelled out. -/
theorem Represents.map_spelling?_parentsOf (hrep : h.Represents ds)
    (hs : h.names.symbol? name = some s) :
    (h.parentsOf s).map h.names.spelling? =
      (supertypeKeys ds (Text.fold name)).map (firstSpelling? ds) := by
  rw [hrep.supers s, filter_symbol? hs]
  refine hrep.map_eraseDups (fun p hp => ?_) fun p t ht => hrep.spelling?_of_symbol? ht
  obtain ⟨d, hd, hmem⟩ := List.mem_flatMap.1 hp
  exact mem_givenNames_of_mem_snd (List.mem_of_mem_filter hd) hmem

/-- **The rows, spelled out, are the declarations, merged.** -/
theorem Represents.map_spelling?_parents (hrep : h.Represents ds) :
    (h.parents.map fun row => (h.names.spelling? row.1, row.2.map h.names.spelling?)) =
      (declaredKeys ds).map fun key =>
        (firstSpelling? ds key, (supertypeKeys ds key).map (firstSpelling? ds)) := by
  have hgiven : ∀ name ∈ ds.map Prod.fst, name ∈ givenNames ds := by
    intro name hname
    obtain ⟨d, hd, rfl⟩ := List.mem_map.1 hname
    exact fst_mem_givenNames hd
  have hrows : (h.parents.map fun row => (h.names.spelling? row.1, row.2.map h.names.spelling?)) =
      (h.parents.map Prod.fst).map fun s =>
        (h.names.spelling? s, (h.parentsOf s).map h.names.spelling?) := by
    rw [List.map_map]
    refine List.map_congr_left fun row hrow => ?_
    rw [Function.comp_apply, hrep.parentsOf_of_mem hrow]
  have hkeys : declaredKeys ds = ((ds.map Prod.fst).map Text.fold).eraseDups := by
    rw [declaredKeys, List.map_map]
    rfl
  rw [hrows, hkeys, hrep.keys]
  refine hrep.map_eraseDups hgiven fun name s hs => ?_
  rw [hrep.spelling?_of_symbol? hs, hrep.map_spelling?_parentsOf hs]

/-- The symbols of a row are those of names that were given. -/
theorem Represents.exists_name_of_mem_row (hrep : h.Represents ds) {row : Symbol × List Symbol}
    (hrow : row ∈ h.parents) (hs : s ∈ row.1 :: row.2) :
    ∃ name ∈ givenNames ds, h.names.symbol? name = some s := by
  rcases List.mem_cons.1 hs with rfl | hsuper
  · obtain ⟨d, hd, hkey⟩ := hrep.exists_of_mem_parents hrow
    exact ⟨d.1, fst_mem_givenNames hd, hkey⟩
  · rw [← hrep.parentsOf_of_mem hrow, hrep.supers, List.mem_eraseDups,
      List.mem_filterMap] at hsuper
    obtain ⟨p, hp, hsymbol⟩ := hsuper
    obtain ⟨d, hd, hmem⟩ := List.mem_flatMap.1 hp
    exact ⟨p, mem_givenNames_of_mem_snd (List.mem_of_mem_filter hd) hmem, hsymbol⟩

/-- So they have spellings, names of the same class among those given. -/
theorem Represents.exists_spelling?_of_mem_row (hrep : h.Represents ds)
    {row : Symbol × List Symbol} (hrow : row ∈ h.parents) (hs : s ∈ row.1 :: row.2) :
    ∃ known ∈ givenNames ds, h.names.spelling? s = some known := by
  obtain ⟨name, hname, hsymbol⟩ := hrep.exists_name_of_mem_row hrow hs
  obtain ⟨first, hgiven, hfirst, -⟩ := exists_firstSpelling? hname
  exact ⟨first, hgiven, (hrep.spelling?_of_symbol? hsymbol).trans hfirst⟩

/-- Every class that is declared is listed, in its first spelling. -/
theorem Represents.map_some_classes (hrep : h.Represents ds) :
    h.classes.map some = (declaredKeys ds).map (firstSpelling? ds) := by
  have hknown : ∀ row ∈ h.parents, ∃ known, h.names.spelling? row.1 = some known := by
    intro row hrow
    obtain ⟨known, -, hspelling⟩ := hrep.exists_spelling?_of_mem_row hrow List.mem_cons_self
    exact ⟨known, hspelling⟩
  have hrows := congrArg (List.map Prod.fst) hrep.map_spelling?_parents
  rw [List.map_map, List.map_map] at hrows
  rw [classes, map_some_filterMap hknown]
  exact hrows

/-- The first spelling of a declared class is one of its own. -/
theorem map_fold_firstSpelling? (ds : List (String × List String)) :
    ((declaredKeys ds).map (firstSpelling? ds)).map (Option.map Text.fold) =
      (declaredKeys ds).map some := by
  rw [List.map_map]
  refine List.map_congr_left fun key hkey => ?_
  obtain ⟨d, hd, rfl⟩ := List.mem_map.1 (List.mem_eraseDups.1 hkey)
  obtain ⟨first, -, hfirst, hsame⟩ := exists_firstSpelling? (fst_mem_givenNames hd)
  rw [Function.comp_apply, hfirst, Option.map_some]
  exact congrArg some hsame

/-- So up to spelling the list of classes is the list of declared ones. -/
theorem Represents.map_fold_classes (hrep : h.Represents ds) :
    h.classes.map Text.fold = declaredKeys ds := by
  apply List.map_injective_iff.2 fun a b => Option.some.inj
  calc (h.classes.map Text.fold).map some
      = (h.classes.map some).map (Option.map Text.fold) := by
        rw [List.map_map, List.map_map]
        rfl
    _ = (declaredKeys ds).map some := by rw [hrep.map_some_classes, map_fold_firstSpelling?]

theorem Represents.size_eq (hrep : h.Represents ds) : h.size = (declaredKeys ds).length := by
  have hlength := congrArg List.length hrep.map_spelling?_parents
  rw [List.length_map, List.length_map] at hlength
  exact hlength

/-- Without a row there was no declaration. -/
theorem Represents.isEmpty_iff (hrep : h.Represents ds) : h.isEmpty = true ↔ ds = [] := by
  rw [isEmpty, List.isEmpty_iff]
  constructor
  · intro hnone
    have hsize := hrep.size_eq
    rw [size, hnone, List.length_nil] at hsize
    have hkeys := List.eq_nil_of_length_eq_zero hsize.symm
    refine List.eq_nil_iff_forall_not_mem.2 fun d hd => ?_
    have hkey : Text.fold d.1 ∈ declaredKeys ds := List.mem_eraseDups.2 (List.mem_map_of_mem hd)
    rw [hkeys] at hkey
    exact List.not_mem_nil hkey
  · rintro rfl
    have hsize := hrep.size_eq
    exact List.eq_nil_of_length_eq_zero hsize

/-- **A hierarchy holds its declarations, merged**, whatever their number,
order and spellings. Every symbol in it is spelled, and no supertype comes
twice in a row. Spelled out, there is a row for each class declared, in
the order of first declarations, and in it are all supertypes given for
the class in any spelling, in the order they were first given; names are
spelled as they were first given, be it as a class or as a supertype. The
listing of the classes is that of the rows, so it has each class once, the
size is their number, and only without any declaration there is none. -/
theorem rows_ofDeclarations (ds : List (String × List String)) :
    (∀ row ∈ (ofDeclarations ds).parents, ∀ s ∈ row.1 :: row.2,
      ∃ known ∈ givenNames ds, (ofDeclarations ds).names.spelling? s = some known) ∧
    (∀ row ∈ (ofDeclarations ds).parents, row.2.Nodup) ∧
    ((ofDeclarations ds).parents.map fun row =>
        ((ofDeclarations ds).names.spelling? row.1,
          row.2.map (ofDeclarations ds).names.spelling?)) =
      ((declaredKeys ds).map fun key =>
        (firstSpelling? ds key, (supertypeKeys ds key).map (firstSpelling? ds))) ∧
    (ofDeclarations ds).classes.map some = (declaredKeys ds).map (firstSpelling? ds) ∧
    (ofDeclarations ds).classes.map Text.fold = declaredKeys ds ∧
    (ofDeclarations ds).size = (declaredKeys ds).length ∧
    ((ofDeclarations ds).isEmpty = true ↔ ds = []) := by
  have hrep := represents_ofDeclarations ds
  refine ⟨fun row hrow s hs => hrep.exists_spelling?_of_mem_row hrow hs, fun row hrow => ?_,
    hrep.map_spelling?_parents, hrep.map_some_classes, hrep.map_fold_classes, hrep.size_eq,
    hrep.isEmpty_iff⟩
  rw [← hrep.parentsOf_of_mem hrow]
  exact hrep.nodup_parentsOf row.1

/-- A supertype that is declared later is listed in the spelling it had
before. -/
example : (ofDeclarations [("B", ["\\a", "C"]), ("\\A", []), ("b", ["c", "D"])]).classes =
    ["B", "\\a"] := by decide

end Hierarchy

end TypeScribe

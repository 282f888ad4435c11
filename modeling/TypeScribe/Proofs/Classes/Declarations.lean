import Mathlib.Data.List.Induction
import TypeScribe.Classes.Hierarchy
import TypeScribe.Proofs.Classes.NameTable
import TypeScribe.Proofs.Distinct
/-!
# What a hierarchy records

A hierarchy numbers the names it is given and merges the declarations of
one class, so what it holds looks little like the declarations it was made
from. `Represents` says how the two correspond: the names are entered in
the order they are given, a class has its place by its first declaration,
and its supertypes are those of all its declarations, each at its first
place. One declaration more keeps the correspondence
(`Represents.declare`), so every hierarchy represents its declarations
(`represents_ofDeclarations`), and what it knows, declares and relates is
read off them.
-/

namespace TypeScribe

namespace Hierarchy

/-! ## Merging supertypes -/

/-- **Merging keeps first occurrences**: what is known is the first
occurrences of what was given before, and then of all that was given. -/
theorem addMissing_eraseDups (old new : List Symbol) :
    addMissing old.eraseDups new = (old ++ new).eraseDups :=
  Distinct.foldl_unless_mem old new

theorem length_addMissing_le (old new : List Symbol) :
    (addMissing old new).length ≤ old.length + new.length := by
  induction new generalizing old with
  | nil => exact Nat.le_refl _
  | cons t new ih =>
    have hrest := ih (if t ∈ old then old else old ++ [t])
    have hfirst : (if t ∈ old then old else old ++ [t]).length ≤ old.length + 1 := by
      split
      · exact Nat.le_succ _
      · simp
    have hfold : addMissing old (t :: new) =
        addMissing (if t ∈ old then old else old ++ [t]) new := rfl
    rw [hfold, List.length_cons]
    omega

/-- The class itself is looked up with the supertypes added, any other
symbol as before. -/
theorem lookup_addParents (cls s : Symbol) (supers : List Symbol)
    (entries : List (Symbol × List Symbol)) :
    (addParents cls supers entries).lookup s =
      if s = cls then some (addMissing ((entries.lookup cls).getD []) supers)
      else entries.lookup s := by
  induction entries with
  | nil =>
    by_cases hs : s = cls
    · subst hs
      simp [addParents]
    · have hne : (s == cls) = false := beq_eq_false_iff_ne.2 hs
      simp [addParents, List.lookup_cons, hs, hne]
  | cons entry rest ih =>
    obtain ⟨k, old⟩ := entry
    unfold addParents
    by_cases hk : k = cls
    · subst hk
      by_cases hs : s = k
      · subst hs
        simp
      · have hne : (s == k) = false := beq_eq_false_iff_ne.2 hs
        simp [List.lookup_cons, hs, hne]
    · have hother : (cls == k) = false := beq_eq_false_iff_ne.2 (Ne.symm hk)
      simp only [if_neg hk, List.lookup_cons, hother, ih]
      by_cases hs : s = cls
      · subst hs
        simp [hother]
      · simp [hs]

/-- A class that is there keeps its place, a new one takes the last. -/
theorem keys_addParents (cls : Symbol) (supers : List Symbol)
    (entries : List (Symbol × List Symbol)) :
    (addParents cls supers entries).map Prod.fst =
      if cls ∈ entries.map Prod.fst then entries.map Prod.fst
      else entries.map Prod.fst ++ [cls] := by
  induction entries with
  | nil => rfl
  | cons entry rest ih =>
    unfold addParents
    by_cases hk : entry.1 = cls
    · simp [hk]
    · rw [if_neg hk, List.map_cons, List.map_cons, ih]
      by_cases hrest : cls ∈ rest.map Prod.fst
      · rw [if_pos hrest, if_pos (List.mem_cons_of_mem _ hrest)]
      · have hnew : cls ∉ entry.1 :: rest.map Prod.fst := by
          rw [List.mem_cons, not_or]
          exact ⟨Ne.symm hk, hrest⟩
        rw [if_neg hrest, if_neg hnew, List.cons_append]

/-- A declaration adds no more edges than it has supertypes. -/
theorem edgesLeft_addParents_le (cls : Symbol) (supers : List Symbol)
    (entries : List (Symbol × List Symbol)) :
    edgesLeft [] (addParents cls supers entries) ≤ edgesLeft [] entries + supers.length := by
  induction entries with
  | nil =>
    have hlen := length_addMissing_le [] supers
    simpa [addParents, edgesLeft] using hlen
  | cons entry rest ih =>
    unfold addParents
    by_cases hk : entry.1 = cls
    · have hlen := length_addMissing_le entry.2 supers
      simp only [if_pos hk, edgesLeft, List.not_mem_nil, if_false]
      omega
    · simp only [if_neg hk, edgesLeft, List.not_mem_nil, if_false]
      omega

/-! ## One declaration -/

section Declare

variable {h : Hierarchy} {cls name : String} {supers : List String} {s : Symbol}

/-- The class's name is entered before those of its supertypes. -/
theorem names_declare (h : Hierarchy) (cls : String) (supers : List String) :
    (h.declare cls supers).names = (h.names.internAll (cls :: supers)).2 := rfl

theorem symbol?_declare_of_symbol? (hs : h.names.symbol? name = some s) :
    (h.declare cls supers).names.symbol? name = some s := by
  rw [names_declare]
  exact NameTable.symbol?_internAll_of_symbol? hs (cls :: supers)

theorem symbol?_declare_self :
    (h.declare cls supers).names.symbol? cls = some (h.names.intern cls).1 := by
  have hcls := NameTable.symbol?_intern_self h.names cls
  exact NameTable.symbol?_internAll_of_symbol? hcls supers

theorem keys_declare (h : Hierarchy) (cls : String) (supers : List String) :
    (h.declare cls supers).parents.map Prod.fst =
      if (h.names.intern cls).1 ∈ h.parents.map Prod.fst then h.parents.map Prod.fst
      else h.parents.map Prod.fst ++ [(h.names.intern cls).1] :=
  keys_addParents _ _ h.parents

/-- The supertypes given are added to those of the class declared, and
those of no other. -/
theorem parentsOf_declare (h : Hierarchy) (cls : String) (supers : List String) (s : Symbol) :
    (h.declare cls supers).parentsOf s =
      if s = (h.names.intern cls).1 then
        addMissing (h.parentsOf s) (supers.filterMap (h.declare cls supers).names.symbol?)
      else h.parentsOf s := by
  have hgiven : supers.filterMap (h.declare cls supers).names.symbol? =
      ((h.names.intern cls).2.internAll supers).1 :=
    (NameTable.fst_internAll (h.names.intern cls).2 supers).symm
  have hlookup : (h.declare cls supers).parents.lookup s = _ :=
    lookup_addParents (h.names.intern cls).1 s
      ((h.names.intern cls).2.internAll supers).1 h.parents
  rw [hgiven, parentsOf, hlookup]
  by_cases hs : s = (h.names.intern cls).1
  · rw [if_pos hs, if_pos hs, Option.getD_some, parentsOf, hs]
  · rw [if_neg hs, if_neg hs, parentsOf]

theorem edgesLeft_declare_le (h : Hierarchy) (cls : String) (supers : List String) :
    edgesLeft [] (h.declare cls supers).parents ≤ edgesLeft [] h.parents + supers.length := by
  have hlen := NameTable.length_internAll (h.names.intern cls).2 supers
  have hadd := edgesLeft_addParents_le (h.names.intern cls).1
    ((h.names.intern cls).2.internAll supers).1 h.parents
  rw [hlen] at hadd
  exact hadd

end Declare

/-! ## All declarations -/

/-- The names some declarations give, in the order they are given: each
class before its supertypes. -/
def givenNames (ds : List (String × List String)) : List String :=
  ds.flatMap fun d => d.1 :: d.2

/-- What a hierarchy has to do with the declarations it was made from. -/
structure Represents (h : Hierarchy) (ds : List (String × List String)) : Prop where
  names : h.names = (NameTable.empty.internAll (givenNames ds)).2
  /-- The classes, each by its first declaration. -/
  keys : h.parents.map Prod.fst = ((ds.map Prod.fst).filterMap h.names.symbol?).eraseDups
  /-- The supertypes of a class in all its declarations, each by the first
  that gives it. -/
  supers : ∀ s, h.parentsOf s =
    (((ds.filter fun d => h.names.symbol? d.1 = some s).flatMap Prod.snd).filterMap
      h.names.symbol?).eraseDups

section Represents

variable {h : Hierarchy} {ds : List (String × List String)} {d : String × List String}
variable {name : String}

theorem fst_mem_givenNames (hd : d ∈ ds) : d.1 ∈ givenNames ds :=
  List.mem_flatMap.2 ⟨d, hd, List.mem_cons_self⟩

theorem mem_givenNames_of_mem_snd (hd : d ∈ ds) (hname : name ∈ d.2) : name ∈ givenNames ds :=
  List.mem_flatMap.2 ⟨d, hd, List.mem_cons_of_mem _ hname⟩

/-- Every name given has a symbol. -/
theorem Represents.exists_symbol? (hrep : h.Represents ds) (hname : name ∈ givenNames ds) :
    ∃ s, h.names.symbol? name = some s := by
  rw [hrep.names, ← NameTable.knows_iff_exists_symbol?, NameTable.knows_internAll]
  exact Or.inr ⟨name, hname, rfl⟩

/-- And one declaration more leaves it the same. -/
theorem Represents.symbol?_declare (hrep : h.Represents ds) (hname : name ∈ givenNames ds)
    (cls : String) (supers : List String) :
    (h.declare cls supers).names.symbol? name = h.names.symbol? name := by
  obtain ⟨s, hs⟩ := hrep.exists_symbol? hname
  rw [symbol?_declare_of_symbol? hs, hs]

/-- **One declaration keeps the correspondence.** -/
theorem Represents.declare (hrep : h.Represents ds) (d : String × List String) :
    (h.declare d.1 d.2).Represents (ds ++ [d]) := by
  have hself : (h.declare d.1 d.2).names.symbol? d.1 = some (h.names.intern d.1).1 :=
    symbol?_declare_self
  -- names given before mean the symbols they meant before
  have hclasses : (ds.map Prod.fst).filterMap (h.declare d.1 d.2).names.symbol? =
      (ds.map Prod.fst).filterMap h.names.symbol? := by
    refine List.filterMap_congr fun name hname => ?_
    obtain ⟨e, he, rfl⟩ := List.mem_map.1 hname
    exact hrep.symbol?_declare (fst_mem_givenNames he) d.1 d.2
  have hfilter : ∀ s, (ds.filter fun e => (h.declare d.1 d.2).names.symbol? e.1 = some s) =
      ds.filter fun e => h.names.symbol? e.1 = some s := by
    intro s
    refine List.filter_congr fun e he => ?_
    rw [hrep.symbol?_declare (fst_mem_givenNames he) d.1 d.2]
  have hsupers : ∀ s, ((ds.filter fun e => h.names.symbol? e.1 = some s).flatMap
      Prod.snd).filterMap (h.declare d.1 d.2).names.symbol? =
      ((ds.filter fun e => h.names.symbol? e.1 = some s).flatMap Prod.snd).filterMap
        h.names.symbol? := by
    intro s
    refine List.filterMap_congr fun name hname => ?_
    obtain ⟨e, he, hmem⟩ := List.mem_flatMap.1 hname
    have hgiven := mem_givenNames_of_mem_snd (List.mem_of_mem_filter he) hmem
    exact hrep.symbol?_declare hgiven d.1 d.2
  refine ⟨?_, ?_, fun s => ?_⟩
  · rw [names_declare, hrep.names, givenNames, givenNames, List.flatMap_append,
      List.flatMap_singleton, NameTable.internAll_append]
  · rw [keys_declare, List.map_append, List.filterMap_append, hclasses, List.map_singleton,
      List.filterMap_cons_some hself, List.filterMap_nil, Distinct.eraseDups_concat, hrep.keys]
    simp only [List.mem_eraseDups]
  · rw [parentsOf_declare, List.filter_append, List.flatMap_append, List.filterMap_append, hfilter,
      hsupers]
    by_cases hs : s = (h.names.intern d.1).1
    · have hlast : [d].filter (fun e => (h.declare d.1 d.2).names.symbol? e.1 = some s) = [d] := by
        rw [List.filter_cons_of_pos (by simp [hself, hs]), List.filter_nil]
      rw [if_pos hs, hlast, List.flatMap_singleton, hrep.supers s, addMissing_eraseDups]
    · have hlast : [d].filter (fun e => (h.declare d.1 d.2).names.symbol? e.1 = some s) = [] := by
        have hne : some (h.names.intern d.1).1 ≠ some s := fun heq => hs (Option.some.inj heq).symm
        rw [List.filter_cons_of_neg (by simp [hself, hne]), List.filter_nil]
      rw [if_neg hs, hlast, List.flatMap_nil, List.filterMap_nil, List.append_nil, hrep.supers s]

end Represents

/-- Whether a name is given in some declaration, as class or supertype. -/
def Mentions (ds : List (String × List String)) (name : String) : Prop :=
  ∃ d ∈ ds, Text.SameName d.1 name ∨ ∃ p ∈ d.2, Text.SameName p name

section OfDeclarations

variable {ds : List (String × List String)} {d : String × List String} {name : String}
variable {s t : Symbol}

theorem ofDeclarations_concat (ds : List (String × List String)) (d : String × List String) :
    ofDeclarations (ds ++ [d]) = (ofDeclarations ds).declare d.1 d.2 := by
  rw [ofDeclarations, List.foldl_append]
  rfl

/-- **Every hierarchy represents its declarations.** -/
theorem represents_ofDeclarations (ds : List (String × List String)) :
    (ofDeclarations ds).Represents ds := by
  induction ds using List.reverseRec with
  | nil => exact ⟨rfl, rfl, fun s => rfl⟩
  | append_singleton ds d ih =>
    rw [ofDeclarations_concat]
    exact ih.declare d

theorem mentions_iff : Mentions ds name ↔ ∃ given ∈ givenNames ds, Text.SameName given name := by
  simp only [Mentions, givenNames, List.mem_flatMap, List.mem_cons]
  constructor
  · rintro ⟨d, hd, hcls | ⟨p, hp, hsuper⟩⟩
    · exact ⟨d.1, ⟨d, hd, Or.inl rfl⟩, hcls⟩
    · exact ⟨p, ⟨d, hd, Or.inr hp⟩, hsuper⟩
  · rintro ⟨given, ⟨d, hd, rfl | hp⟩, hsame⟩
    · exact ⟨d, hd, Or.inl hsame⟩
    · exact ⟨d, hd, Or.inr ⟨given, hp, hsame⟩⟩

/-- **The names known are the names mentioned.** -/
theorem knows_ofDeclarations : (ofDeclarations ds).names.Knows name ↔ Mentions ds name := by
  rw [(represents_ofDeclarations ds).names, NameTable.knows_internAll, mentions_iff]
  exact or_iff_right (NameTable.not_knows_empty name)

theorem mentions_class (hd : d ∈ ds) : Mentions ds d.1 :=
  ⟨d, hd, Or.inl rfl⟩

theorem mentions_supertype {p : String} (hd : d ∈ ds) (hp : p ∈ d.2) : Mentions ds p :=
  ⟨d, hd, Or.inr ⟨p, hp, rfl⟩⟩

/-- **The supertypes recorded are the supertypes declared.** -/
theorem mem_parentsOf_ofDeclarations : t ∈ (ofDeclarations ds).parentsOf s ↔
    ∃ d ∈ ds, (ofDeclarations ds).names.symbol? d.1 = some s ∧
      ∃ p ∈ d.2, (ofDeclarations ds).names.symbol? p = some t := by
  rw [(represents_ofDeclarations ds).supers, List.mem_eraseDups, List.mem_filterMap]
  simp only [List.mem_flatMap, List.mem_filter, decide_eq_true_eq]
  constructor
  · rintro ⟨p, ⟨d, ⟨hd, hcls⟩, hp⟩, hsuper⟩
    exact ⟨d, hd, hcls, p, hp, hsuper⟩
  · rintro ⟨d, hd, hcls, p, hp, hsuper⟩
    exact ⟨p, ⟨d, ⟨hd, hcls⟩, hp⟩, hsuper⟩

/-- **The classes declared are the classes recorded.** -/
theorem mem_keys_ofDeclarations : s ∈ (ofDeclarations ds).parents.map Prod.fst ↔
    ∃ d ∈ ds, (ofDeclarations ds).names.symbol? d.1 = some s := by
  rw [(represents_ofDeclarations ds).keys, List.mem_eraseDups, List.mem_filterMap]
  simp only [List.mem_map, exists_exists_and_eq_and]

/-- No more edges are recorded than supertypes were written. -/
theorem edgesLeft_ofDeclarations_le (ds : List (String × List String)) :
    edgesLeft [] (ofDeclarations ds).parents ≤ (ds.flatMap Prod.snd).length := by
  induction ds using List.reverseRec with
  | nil => exact Nat.le_refl _
  | append_singleton ds d ih =>
    have hlast := edgesLeft_declare_le (ofDeclarations ds) d.1 d.2
    rw [ofDeclarations_concat, List.flatMap_append, List.flatMap_singleton, List.length_append]
    omega

end OfDeclarations

end Hierarchy

end TypeScribe

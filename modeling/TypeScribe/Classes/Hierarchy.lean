import TypeScribe.Classes.NameTable
/-!
# Declared classes and their ancestry

A hierarchy is filled by declarations: a class, or interface or trait,
with its direct supertypes. A class may be declared more than once, and
then has the supertypes of all its declarations; a supertype need not be
declared at all, and the declared edges may form cycles.

`exists` knows the declared classes only. `isSubclassOf` follows the
declared edges upwards any number of times, also none: it asks whether one
class reaches another, for which both names must have been mentioned. The
search keeps the symbols it has been at, so it ends on every hierarchy.
-/

namespace TypeScribe

/-- Classes with their direct supertypes. -/
structure Hierarchy where
  /-- Every name mentioned so far. -/
  names : NameTable
  /-- The declared classes in order of first declaration, each with its
  direct supertypes. -/
  parents : List (Symbol × List Symbol)
deriving DecidableEq, Repr

namespace Hierarchy

/-- No class at all. -/
def empty : Hierarchy := ⟨.empty, []⟩

instance : Inhabited Hierarchy := ⟨empty⟩

/-- The supertypes `old` and after them those of `new` that are missing. -/
def addMissing (old new : List Symbol) : List Symbol :=
  new.foldl (fun known s => if s ∈ known then known else known ++ [s]) old

/-- The declarations with supertypes added to one class, which takes the
last place if it is new. -/
def addParents (cls : Symbol) (supers : List Symbol) :
    List (Symbol × List Symbol) → List (Symbol × List Symbol)
  | [] => [(cls, addMissing [] supers)]
  | entry :: rest =>
    if entry.1 = cls then (cls, addMissing entry.2 supers) :: rest
    else entry :: addParents cls supers rest

/-- Declares a class with its direct supertypes. -/
def declare (h : Hierarchy) (cls : String) (supertypes : List String) : Hierarchy :=
  let (s, names) := h.names.intern cls
  let (supers, names) := names.internAll supertypes
  ⟨names, addParents s supers h.parents⟩

/-- The hierarchy of a list of declarations. -/
def ofDeclarations (declarations : List (String × List String)) : Hierarchy :=
  declarations.foldl (fun h d => h.declare d.1 d.2) empty

/-- The direct supertypes of a symbol; a class never declared has none. -/
def parentsOf (h : Hierarchy) (s : Symbol) : List Symbol :=
  (h.parents.lookup s).getD []

/-- The declared classes, each in the spelling its name was first met in. -/
def classes (h : Hierarchy) : List String :=
  h.parents.filterMap fun entry => h.names.spelling? entry.1

/-- How many classes are declared. -/
def size (h : Hierarchy) : Nat := h.parents.length

/-- Whether no class is declared. -/
def isEmpty (h : Hierarchy) : Bool := h.parents.isEmpty

/-- Whether a class of this name is declared. -/
def declares (h : Hierarchy) (cls : String) : Bool :=
  match h.names.symbol? cls with
  | some s => h.parents.any (·.1 = s)
  | none => false

/-! ## Ancestry -/

/-- A search among the ancestors of a class. -/
structure Search where
  /-- Where the search has been. -/
  visited : List Symbol
  /-- Where it has yet to go, the next symbol first. -/
  pending : List Symbol
deriving DecidableEq, Repr

/-- What one turn of a search comes to. -/
inductive Turn
  | answer (met : Bool)
  | goOn (rest : Search)
deriving DecidableEq, Repr

/-- One turn of the search for `target`. If the next symbol is another one
and the search has not been there, its supertypes are put in front of the
rest, the last of them first. -/
def turn (h : Hierarchy) (target : Symbol) (x : Search) : Turn :=
  match x.pending with
  | [] => .answer false
  | s :: pending =>
    if s = target then .answer true
    else if s ∈ x.visited then .goOn ⟨x.visited, pending⟩
    else .goOn ⟨s :: x.visited, (h.parentsOf s).reverse ++ pending⟩

/-- What one turn can be. -/
theorem turn_cases (h : Hierarchy) (target : Symbol) (x : Search) :
    (x.pending = [] ∧ h.turn target x = .answer false) ∨
    (∃ pending, x.pending = target :: pending ∧ h.turn target x = .answer true) ∨
    (∃ s pending, x.pending = s :: pending ∧ s ≠ target ∧ s ∈ x.visited ∧
      h.turn target x = .goOn ⟨x.visited, pending⟩) ∨
    (∃ s pending, x.pending = s :: pending ∧ s ≠ target ∧ s ∉ x.visited ∧
      h.turn target x = .goOn ⟨s :: x.visited, (h.parentsOf s).reverse ++ pending⟩) := by
  obtain ⟨visited, pending⟩ := x
  rcases pending with _ | ⟨s, pending⟩
  · exact Or.inl ⟨rfl, rfl⟩
  · by_cases htarget : s = target
    · subst htarget
      exact Or.inr (Or.inl ⟨pending, rfl, if_pos rfl⟩)
    · by_cases hs : s ∈ visited
      · refine Or.inr (Or.inr (Or.inl ⟨s, pending, rfl, htarget, hs, ?_⟩))
        simp only [turn, if_neg htarget, if_pos hs]
      · refine Or.inr (Or.inr (Or.inr ⟨s, pending, rfl, htarget, hs, ?_⟩))
        simp only [turn, if_neg htarget, if_neg hs]

/-- How many edges start at classes not yet visited. -/
def edgesLeft (visited : List Symbol) : List (Symbol × List Symbol) → Nat
  | [] => 0
  | entry :: rest =>
    (if entry.1 ∈ visited then 0 else entry.2.length) + edgesLeft visited rest

/-- How many turns a search can have left before the last. -/
def turnsLeft (h : Hierarchy) (x : Search) : Nat :=
  x.pending.length + edgesLeft x.visited h.parents

/-- Visiting one symbol more leaves no more edges. -/
theorem edgesLeft_cons_le (s : Symbol) (visited : List Symbol)
    (entries : List (Symbol × List Symbol)) :
    edgesLeft (s :: visited) entries ≤ edgesLeft visited entries := by
  induction entries with
  | nil => exact Nat.le_refl _
  | cons entry rest ih =>
    refine Nat.add_le_add ?_ ih
    by_cases hv : entry.1 ∈ visited
    · simp [hv]
    · rw [if_neg hv]
      split
      · exact Nat.zero_le _
      · exact Nat.le_refl _

/-- A visit uses up the edges of the symbol. -/
theorem edgesLeft_cons_add_le {s : Symbol} {visited : List Symbol} (hs : s ∉ visited)
    (entries : List (Symbol × List Symbol)) :
    edgesLeft (s :: visited) entries + ((entries.lookup s).getD []).length ≤
      edgesLeft visited entries := by
  induction entries with
  | nil => exact Nat.le_refl _
  | cons entry rest ih =>
    obtain ⟨k, supers⟩ := entry
    by_cases hk : s = k
    · subst hk
      have hrest := edgesLeft_cons_le s visited rest
      simp only [edgesLeft, List.mem_cons, true_or, if_true, if_neg hs, List.lookup_cons_self,
        Option.getD_some]
      omega
    · have hother : (s == k) = false := beq_eq_false_iff_ne.2 hk
      have hkey : k ∈ s :: visited ↔ k ∈ visited := by
        rw [List.mem_cons]
        exact or_iff_right (Ne.symm hk)
      simp only [edgesLeft, hkey, List.lookup_cons, hother]
      omega

/-- **Every turn but the last brings the search nearer to its end.** -/
theorem turnsLeft_lt_of_turn {h : Hierarchy} {target : Symbol} {x y : Search}
    (hturn : h.turn target x = .goOn y) : h.turnsLeft y < h.turnsLeft x := by
  rcases turn_cases h target x with ⟨-, hans⟩ | ⟨pending, -, hans⟩ |
    ⟨s, pending, hstack, -, -, hgo⟩ | ⟨s, pending, hstack, -, hs, hgo⟩
  · rw [hans] at hturn
    cases hturn
  · rw [hans] at hturn
    cases hturn
  · obtain rfl : _ = y := Turn.goOn.inj (hgo.symm.trans hturn)
    simp only [turnsLeft, hstack, List.length_cons]
    omega
  · obtain rfl : _ = y := Turn.goOn.inj (hgo.symm.trans hturn)
    have hused := edgesLeft_cons_add_le hs h.parents
    simp only [turnsLeft, parentsOf, hstack, List.length_append, List.length_reverse,
      List.length_cons]
    omega

/-- Whether the search meets `target`. -/
def meets (h : Hierarchy) (target : Symbol) (x : Search) : Bool :=
  match _hturn : h.turn target x with
  | .answer met => met
  | .goOn y => h.meets target y
termination_by h.turnsLeft x
decreasing_by exact turnsLeft_lt_of_turn ‹_›

/-- Whether `cls` is `ancestor` or has it among its ancestors. A name that
was never mentioned has no ancestry, not even itself. -/
def isSubclassOf (h : Hierarchy) (cls ancestor : String) : Bool :=
  match h.names.symbol? cls, h.names.symbol? ancestor with
  | some s, some target => h.meets target ⟨[], [s]⟩
  | _, _ => false

/-- Ancestry in either direction. -/
def related (h : Hierarchy) (a b : String) : Bool :=
  h.isSubclassOf a b || h.isSubclassOf b a

/-- Being related has no direction. -/
theorem related_comm (h : Hierarchy) (a b : String) : h.related a b = h.related b a :=
  Bool.or_comm _ _

end Hierarchy

end TypeScribe

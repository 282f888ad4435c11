import Mathlib.Logic.Relation
import TypeScribe.Proofs.Classes.Declarations
/-!
# The search for ancestors

A search for a class among the ancestors of another keeps a stack of
symbols, which may hold one symbol many times, and the symbols it has
visited. What makes its answer right is that it never leaves anything
behind: whatever leads out of the visited symbols is visited or on the
stack (`Search.Tracks`). The answer is then the reflexive and transitive
closure of the recorded edges (`meets_iff_reaches`), and through the names
that of the declared ones (`isSubclassOf_ofDeclarations`), cycles or not.
-/

namespace TypeScribe

namespace Hierarchy

/-- One symbol has another among its ancestors, or is that symbol. -/
def Reaches (h : Hierarchy) : Symbol → Symbol → Prop :=
  Relation.ReflTransGen fun s t => t ∈ h.parentsOf s

/-! ## What a search keeps to -/

/-- A search from `start` for `target` that has not met it so far and has
left nothing behind. -/
structure Search.Tracks (h : Hierarchy) (start target : Symbol) (x : Search) : Prop where
  /-- The start has been visited or is going to be. -/
  start_mem : start ∈ x.visited ∨ start ∈ x.pending
  /-- Nothing is on the stack that the start does not reach. -/
  reached : ∀ s ∈ x.pending, h.Reaches start s
  unmet : target ∉ x.visited
  /-- An edge out of a visited symbol leads to a visited symbol or to one
  on the stack. -/
  closed : ∀ s ∈ x.visited, ∀ t ∈ h.parentsOf s, t ∈ x.visited ∨ t ∈ x.pending

variable {h : Hierarchy} {start target : Symbol} {x y : Search}

theorem tracks_start (h : Hierarchy) (start target : Symbol) :
    Search.Tracks h start target ⟨[], [start]⟩ where
  start_mem := Or.inr (List.mem_singleton_self start)
  reached := by
    intro s hs
    rw [List.mem_singleton] at hs
    subst hs
    exact Relation.ReflTransGen.refl
  unmet := List.not_mem_nil
  closed := fun s hs => absurd hs List.not_mem_nil

section Turn

variable {s : Symbol} {visited pending : List Symbol}

/-- A symbol visited before may be dropped. -/
theorem Search.Tracks.skip (hx : Search.Tracks h start target ⟨visited, s :: pending⟩)
    (hs : s ∈ visited) : Search.Tracks h start target ⟨visited, pending⟩ := by
  have hdrop : ∀ t, t ∈ visited ∨ t ∈ s :: pending → t ∈ visited ∨ t ∈ pending := by
    intro t ht
    rw [List.mem_cons] at ht
    rcases ht with ht | rfl | ht
    · exact Or.inl ht
    · exact Or.inl hs
    · exact Or.inr ht
  exact {
    start_mem := hdrop start hx.start_mem
    reached := fun t ht => hx.reached t (List.mem_cons_of_mem s ht)
    unmet := hx.unmet
    closed := fun t ht u hu => hdrop u (hx.closed t ht u hu) }

/-- A symbol other than the target may be visited, if its supertypes are
put on the stack. -/
theorem Search.Tracks.visit (hx : Search.Tracks h start target ⟨visited, s :: pending⟩)
    (hne : s ≠ target) :
    Search.Tracks h start target ⟨s :: visited, (h.parentsOf s).reverse ++ pending⟩ := by
  have hmove : ∀ t, t ∈ visited ∨ t ∈ s :: pending →
      t ∈ s :: visited ∨ t ∈ (h.parentsOf s).reverse ++ pending := by
    intro t ht
    rw [List.mem_cons] at ht
    rw [List.mem_cons, List.mem_append]
    tauto
  refine ⟨hmove start hx.start_mem, fun t ht => ?_, ?_, fun t ht u hu => ?_⟩
  · rcases List.mem_append.1 ht with ht | ht
    · exact (hx.reached s List.mem_cons_self).tail (List.mem_reverse.1 ht)
    · exact hx.reached t (List.mem_cons_of_mem s ht)
  · intro hmet
    rcases List.mem_cons.1 hmet with rfl | hmet
    · exact hne rfl
    · exact hx.unmet hmet
  · rcases List.mem_cons.1 ht with rfl | ht
    · exact Or.inr (List.mem_append_left _ (List.mem_reverse.2 hu))
    · exact hmove u (hx.closed t ht u hu)

end Turn

/-- **A turn leaves nothing behind.** -/
theorem Search.Tracks.turn (hx : x.Tracks h start target) (hturn : h.turn target x = .goOn y) :
    y.Tracks h start target := by
  obtain ⟨visited, stack⟩ := x
  rcases turn_cases h target ⟨visited, stack⟩ with ⟨-, hans⟩ | ⟨pending, -, hans⟩ |
    ⟨s, pending, rfl, -, hs, hgo⟩ | ⟨s, pending, rfl, hne, -, hgo⟩
  · rw [hans] at hturn
    cases hturn
  · rw [hans] at hturn
    cases hturn
  · rw [hgo, Turn.goOn.injEq] at hturn
    exact hturn ▸ hx.skip hs
  · rw [hgo, Turn.goOn.injEq] at hturn
    exact hturn ▸ hx.visit hne

/-- With nothing on the stack all that the start reaches has been visited. -/
theorem Search.Tracks.mem_visited (hx : x.Tracks h start target) (hend : x.pending = [])
    {s : Symbol} (hs : h.Reaches start s) : s ∈ x.visited := by
  have hnone : ∀ t, t ∉ x.pending := by
    intro t
    rw [hend]
    exact List.not_mem_nil
  induction hs with
  | refl => exact hx.start_mem.resolve_right (hnone start)
  | tail _ hedge ih => exact (hx.closed _ ih _ hedge).resolve_right (hnone _)

/-- **An answer says whether the start reaches the target.** -/
theorem Search.Tracks.answer (hx : x.Tracks h start target) {met : Bool}
    (hturn : h.turn target x = .answer met) : met = true ↔ h.Reaches start target := by
  rcases turn_cases h target x with ⟨hend, hans⟩ | ⟨pending, hstack, hans⟩ |
    ⟨s, pending, -, -, -, hgo⟩ | ⟨s, pending, -, -, -, hgo⟩
  · obtain rfl : false = met := Turn.answer.inj (hans.symm.trans hturn)
    refine iff_of_false Bool.false_ne_true fun hreach => ?_
    exact hx.unmet (hx.mem_visited hend hreach)
  · obtain rfl : true = met := Turn.answer.inj (hans.symm.trans hturn)
    have htarget : target ∈ x.pending := by
      rw [hstack]
      exact List.mem_cons_self
    exact iff_of_true rfl (hx.reached target htarget)
  · rw [hgo] at hturn
    cases hturn
  · rw [hgo] at hturn
    cases hturn

theorem meets_of_answer {met : Bool} (hturn : h.turn target x = .answer met) :
    h.meets target x = met := by
  rw [meets]
  split
  · rename_i b hb
    exact Turn.answer.inj (hb.symm.trans hturn)
  · rename_i z hz
    rw [hz] at hturn
    cases hturn

theorem meets_of_goOn (hturn : h.turn target x = .goOn y) :
    h.meets target x = h.meets target y := by
  rw [meets]
  split
  · rename_i b hb
    rw [hb] at hturn
    cases hturn
  · rename_i z hz
    obtain rfl : z = y := Turn.goOn.inj (hz.symm.trans hturn)
    rfl

/-- **The search is right from every state it comes to.** -/
theorem Search.Tracks.meets (hx : x.Tracks h start target) :
    h.meets target x = true ↔ h.Reaches start target := by
  induction x using meets.induct h target with
  | case1 x met hturn =>
    rw [meets_of_answer hturn]
    exact hx.answer hturn
  | case2 x y hturn ih =>
    rw [meets_of_goOn hturn]
    exact ih (hx.turn hturn)

/-- **The search meets what the start reaches.** -/
theorem meets_iff_reaches : h.meets target ⟨[], [start]⟩ = true ↔ h.Reaches start target :=
  (tracks_start h start target).meets

/-! ## A search comes to an end -/

/-- The search with a limit on its turns; nothing is answered if they do
not suffice. -/
def meetsWithin (h : Hierarchy) (target : Symbol) : Nat → Search → Option Bool
  | 0, _ => none
  | turns + 1, x =>
    match h.turn target x with
    | .answer met => some met
    | .goOn y => h.meetsWithin target turns y

/-- More turns than the search can have left are enough. -/
theorem meetsWithin_eq_meets {turns : Nat} (hturns : h.turnsLeft x < turns) :
    h.meetsWithin target turns x = some (h.meets target x) := by
  induction turns generalizing x with
  | zero => omega
  | succ turns ih =>
    rw [meetsWithin]
    split
    · rename_i met hturn
      rw [meets_of_answer hturn]
    · rename_i y hturn
      have hless := turnsLeft_lt_of_turn hturn
      rw [meets_of_goOn hturn]
      exact ih (by omega)

/-- `isSubclassOf` with a limit on the turns of its search. -/
def isSubclassOfWithin (h : Hierarchy) (turns : Nat) (cls ancestor : String) : Option Bool :=
  match h.names.symbol? cls, h.names.symbol? ancestor with
  | some s, some target => h.meetsWithin target turns ⟨[], [s]⟩
  | _, _ => some false

/-- Two turns more than there are edges are enough for any two names. -/
theorem isSubclassOfWithin_eq {turns : Nat} (hturns : edgesLeft [] h.parents + 2 ≤ turns)
    (cls ancestor : String) :
    h.isSubclassOfWithin turns cls ancestor = some (h.isSubclassOf cls ancestor) := by
  unfold isSubclassOfWithin isSubclassOf
  rcases h.names.symbol? cls with _ | s
  · rfl
  · rcases h.names.symbol? ancestor with _ | target
    · rfl
    · refine meetsWithin_eq_meets ?_
      simp only [turnsLeft, List.length_cons, List.length_nil]
      omega

/-! ## From symbols to names -/

/-- One of the declarations gives the class `x` the supertype `y`, both
without root and without case. -/
def DeclaredEdge (ds : List (String × List String)) (x y : String) : Prop :=
  ∃ d ∈ ds, Text.fold d.1 = x ∧ ∃ p ∈ d.2, Text.fold p = y

/-- Two names that were mentioned, and declared edges that lead from the
first to the second. -/
def Ancestry (ds : List (String × List String)) (cls ancestor : String) : Prop :=
  Mentions ds cls ∧ Mentions ds ancestor ∧
    Relation.ReflTransGen (DeclaredEdge ds) (Text.fold cls) (Text.fold ancestor)

section OfDeclarations

variable {ds : List (String × List String)} {cls ancestor : String} {s t : Symbol}

theorem Mentions.exists_symbol? (hname : Mentions ds cls) :
    ∃ s, (ofDeclarations ds).names.symbol? cls = some s :=
  NameTable.knows_iff_exists_symbol?.1 (knows_ofDeclarations.2 hname)

/-- What a symbol reaches, its class reaches by declared edges. -/
theorem path_of_reaches (hs : (ofDeclarations ds).names.symbol? cls = some s)
    (hreach : (ofDeclarations ds).Reaches s t)
    (ht : (ofDeclarations ds).names.symbol? ancestor = some t) :
    Relation.ReflTransGen (DeclaredEdge ds) (Text.fold cls) (Text.fold ancestor) := by
  induction hreach generalizing ancestor with
  | refl =>
    have hsame : Text.fold cls = Text.fold ancestor := NameTable.sameName_of_symbol? hs ht
    rw [hsame]
  | tail _ hedge ih =>
    obtain ⟨d, hd, hcls, p, hp, hsuper⟩ := mem_parentsOf_ofDeclarations.1 hedge
    have hsame : Text.fold p = Text.fold ancestor := NameTable.sameName_of_symbol? hsuper ht
    exact (ih hcls).tail ⟨d, hd, rfl, p, hp, hsame⟩

/-- And what a class reaches by declared edges, its symbol reaches. -/
theorem reaches_of_path {y : String} (hs : (ofDeclarations ds).names.symbol? cls = some s)
    (hpath : Relation.ReflTransGen (DeclaredEdge ds) (Text.fold cls) y)
    (hy : Text.fold ancestor = y)
    (ht : (ofDeclarations ds).names.symbol? ancestor = some t) :
    (ofDeclarations ds).Reaches s t := by
  induction hpath generalizing ancestor t with
  | refl =>
    rw [NameTable.symbol?_congr _ hy, hs] at ht
    rw [Option.some.inj ht]
    exact Relation.ReflTransGen.refl
  | tail _ hedge ih =>
    obtain ⟨d, hd, hcls, p, hp, hsuper⟩ := hedge
    have hsame : Text.SameName p ancestor := hsuper.trans hy.symm
    obtain ⟨u, hu⟩ := (mentions_class hd).exists_symbol?
    refine (ih hcls hu).tail (mem_parentsOf_ofDeclarations.2 ⟨d, hd, hu, p, hp, ?_⟩)
    rw [NameTable.symbol?_congr _ hsame, ht]

/-- **The subclass relation is the declared ancestry.** -/
theorem isSubclassOf_ofDeclarations :
    (ofDeclarations ds).isSubclassOf cls ancestor = true ↔ Ancestry ds cls ancestor := by
  unfold isSubclassOf
  constructor
  · intro hsub
    split at hsub
    · rename_i s target hs ht
      have hcls : Mentions ds cls :=
        knows_ofDeclarations.1 (NameTable.knows_iff_exists_symbol?.2 ⟨s, hs⟩)
      have hanc : Mentions ds ancestor :=
        knows_ofDeclarations.1 (NameTable.knows_iff_exists_symbol?.2 ⟨target, ht⟩)
      exact ⟨hcls, hanc, path_of_reaches hs (meets_iff_reaches.1 hsub) ht⟩
    · cases hsub
  · rintro ⟨hcls, hanc, hpath⟩
    obtain ⟨s, hs⟩ := hcls.exists_symbol?
    obtain ⟨t, ht⟩ := hanc.exists_symbol?
    rw [hs, ht]
    exact meets_iff_reaches.2 (reaches_of_path hs hpath rfl ht)

/-- **Just the classes of the declarations are declared.** -/
theorem declares_ofDeclarations :
    (ofDeclarations ds).declares cls = true ↔ ∃ d ∈ ds, Text.SameName d.1 cls := by
  unfold declares
  constructor
  · intro hdecl
    split at hdecl
    · rename_i s hs
      obtain ⟨entry, hentry, hkey⟩ := List.any_eq_true.1 hdecl
      have hmem : s ∈ (ofDeclarations ds).parents.map Prod.fst :=
        List.mem_map.2 ⟨entry, hentry, of_decide_eq_true hkey⟩
      obtain ⟨d, hd, hcls⟩ := mem_keys_ofDeclarations.1 hmem
      exact ⟨d, hd, NameTable.sameName_of_symbol? hcls hs⟩
    · cases hdecl
  · rintro ⟨d, hd, hsame⟩
    obtain ⟨s, hs⟩ := (mentions_class hd).exists_symbol?
    obtain ⟨entry, hentry, hkey⟩ := List.mem_map.1 (mem_keys_ofDeclarations.2 ⟨d, hd, hs⟩)
    rw [← NameTable.symbol?_congr _ hsame, hs]
    exact List.any_eq_true.2 ⟨entry, hentry, decide_eq_true hkey⟩

end OfDeclarations

/-- **A hierarchy is the closure of its declarations**, whatever cycles,
forward references and spellings they have: each search ends within two
turns more than supertypes were written, it finds the declared ancestry,
relatedness is ancestry in either direction, and what is declared is a
class that some declaration is about. -/
theorem ofDeclarations_closure (ds : List (String × List String)) (cls other : String) :
    (ofDeclarations ds).isSubclassOfWithin ((ds.flatMap Prod.snd).length + 2) cls other =
      some ((ofDeclarations ds).isSubclassOf cls other) ∧
    ((ofDeclarations ds).isSubclassOf cls other = true ↔ Ancestry ds cls other) ∧
    ((ofDeclarations ds).related cls other = true ↔
      Ancestry ds cls other ∨ Ancestry ds other cls) ∧
    ((ofDeclarations ds).declares cls = true ↔ ∃ d ∈ ds, Text.SameName d.1 cls) := by
  refine ⟨?_, isSubclassOf_ofDeclarations, ?_, declares_ofDeclarations⟩
  · have hedges := edgesLeft_ofDeclarations_le ds
    exact isSubclassOfWithin_eq (by omega) cls other
  · rw [related, Bool.or_eq_true, isSubclassOf_ofDeclarations, isSubclassOf_ofDeclarations]

end Hierarchy

end TypeScribe

import TypeScribe.Proofs.Syntax.Address
import TypeScribe.Syntax.Finder
/-!
# Questions about a scope

All questions about what lies in a scope are answered by one list, the
nodes of a class in the order of the search: the others ask for its first
or last node, for the first that has a name, or whether it is empty
(`descendant_queries`). The list has one part for each node of the scope,
and a part is pinned down by what it holds and by the order of addresses
(`ListsInOrder`).

A question is refused exactly if one of the names it is given for node
classes is none, and the first such name is what the caller is told
(`Query.Checks`).
-/

namespace TypeScribe

namespace Syntax

/-! ## Names of node classes -/

namespace NodeClass

/-- Whether some node class has the name. -/
def IsName (name : String) : Prop := ∃ cls : NodeClass, cls.name = name

variable {name : String} {cls : NodeClass}

/-- A class is found by no name but its own. -/
theorem name_of_ofName? (h : ofName? name = some cls) : cls.name = name := by
  unfold ofName? at h
  cases hkind : Kind.all.find? fun k => k.isNode && k.label = name with
  | some k =>
    have hk := List.find?_some hkind
    simp only [Bool.and_eq_true, decide_eq_true_eq] at hk
    rw [hkind] at h
    dsimp only [ofKind?] at h
    rw [dif_pos hk.1, Option.some.injEq] at h
    rw [← h]
    exact hk.2
  | none =>
    rw [hkind] at h
    obtain ⟨c, hc, rfl⟩ := Option.map_eq_some_iff.1 h
    have hname := List.find?_some hc
    rwa [decide_eq_true_eq] at hname

/-- **What is found by its name**: every class, and nothing by a name that
is no class's. -/
theorem ofName?_eq_none_iff : ofName? name = none ↔ ¬ IsName name := by
  rw [← not_iff_not, not_not, ← ne_eq, Option.ne_none_iff_exists']
  constructor
  · rintro ⟨cls, hcls⟩
    exact ⟨cls, name_of_ofName? hcls⟩
  · rintro ⟨cls, rfl⟩
    exact ⟨cls, ofName?_name cls⟩

end NodeClass

namespace Query

open NodeClass (IsName)

variable {α : Type} {q : Query} {name : String} {names : List String} {e : UnknownClass}

/-- **What is done with an answer refuses nothing more.** -/
theorem bind_eq_error_iff {β : Type} (answer : Except UnknownClass α) (g : α → β) :
    (do return g (← answer)) = .error e ↔ answer = .error e := by
  cases answer <;> simp [bind, Except.bind, pure, Except.pure]

/-- An answer to a question that was given names for node classes is
refused exactly if some name is no class's, and it is the first such name
that is reported. -/
def Checks (q : Query) (names : List String) (answer : Except UnknownClass α) : Prop :=
  ∀ e, answer = .error e ↔ ∃ valid given rest, names = valid ++ given :: rest ∧
    (∀ name ∈ valid, IsName name) ∧ ¬ IsName given ∧ e = ⟨q, given⟩

theorem class?_name (q : Query) (cls : NodeClass) : q.class? cls.name = .ok cls := by
  rw [class?, NodeClass.ofName?_name]

theorem class?_of_not_isName (hname : ¬ IsName name) : q.class? name = .error ⟨q, name⟩ := by
  rw [class?, NodeClass.ofName?_eq_none_iff.2 hname]

theorem classes?_map_name (q : Query) (classes : List NodeClass) :
    q.classes? (classes.map NodeClass.name) = .ok classes := by
  induction classes with
  | nil => rfl
  | cons cls classes ih =>
    rw [List.map_cons, classes?, class?_name, ih]
    rfl

/-- **Names are taken from left to right**, and the first that is no
class's ends it. -/
theorem checks_classes? (q : Query) (names : List String) : q.Checks names (q.classes? names) := by
  induction names with
  | nil =>
    intro e
    refine ⟨fun h => (by cases h), ?_⟩
    rintro ⟨valid, given, rest, hsplit, -⟩
    simp at hsplit
  | cons name names ih =>
    intro e
    by_cases hname : IsName name
    · obtain ⟨cls, rfl⟩ := hname
      have hmore : q.classes? (cls.name :: names) = .error e ↔ q.classes? names = .error e := by
        rw [classes?, class?_name]
        exact bind_eq_error_iff (q.classes? names) (cls :: ·)
      rw [hmore, ih e]
      constructor
      · rintro ⟨valid, given, rest, rfl, hvalid, hgiven, rfl⟩
        refine ⟨cls.name :: valid, given, rest, rfl, ?_, hgiven, rfl⟩
        exact List.forall_mem_cons.2 ⟨⟨cls, rfl⟩, hvalid⟩
      · rintro ⟨valid, given, rest, hsplit, hvalid, hgiven, rfl⟩
        cases valid with
        | nil =>
          obtain ⟨rfl, -⟩ := List.cons.inj hsplit
          exact absurd ⟨cls, rfl⟩ hgiven
        | cons first valid =>
          obtain ⟨-, rfl⟩ := List.cons.inj hsplit
          exact ⟨valid, given, rest, rfl, (List.forall_mem_cons.1 hvalid).2, hgiven, rfl⟩
    · have hrefused : q.classes? (name :: names) = .error ⟨q, name⟩ := by
        rw [classes?, class?_of_not_isName hname]
        rfl
      rw [hrefused, Except.error.injEq]
      constructor
      · rintro rfl
        exact ⟨[], name, names, rfl, by simp, hname, rfl⟩
      · rintro ⟨valid, given, rest, hsplit, hvalid, hgiven, rfl⟩
        cases valid with
        | nil =>
          obtain ⟨rfl, -⟩ := List.cons.inj hsplit
          rfl
        | cons first valid =>
          obtain ⟨rfl, -⟩ := List.cons.inj hsplit
          exact absurd (hvalid name List.mem_cons_self) hname

/-- One name is a list of one. -/
theorem checks_class? (q : Query) (name : String) : q.Checks [name] (q.class? name) := by
  intro e
  have hlist : q.classes? [name] = .error e ↔ q.class? name = .error e := by
    rw [classes?, classes?]
    exact bind_eq_error_iff (q.class? name) ([·])
  rw [← hlist]
  exact checks_classes? q [name] e

theorem Checks.bind {β : Type} {answer : Except UnknownClass α} (h : q.Checks names answer)
    (g : α → β) : q.Checks names (do return g (← answer)) :=
  fun e => (bind_eq_error_iff answer g).trans (h e)

end Query

namespace Finder

variable {f : Finder} {scope : List Node} {cls : NodeClass} {p : Node → Bool}

/-! ## One list for all questions -/

/-- A list holds the nodes that lie in a node and have a property, each of
them once, in the lexicographic order of their addresses. -/
structure ListsInOrder (part : List Node) (n : Node) (p : Node → Bool) : Prop where
  mem_iff : ∀ m, m ∈ part ↔ m.LiesIn n ∧ p m = true
  increasing : part.Pairwise fun a b => a.address < b.address

theorem listsInOrder_descendants (n : Node) (p : Node → Bool) :
    ListsInOrder (n.descendants.filter p) n p where
  mem_iff m := by rw [List.mem_filter, Node.mem_descendants_iff]
  increasing := n.pairwise_address_descendants.filter p

/-- A search goes through the parts of a scope one after the other. -/
theorem all_eq_flatMap (scope : List Node) (p : Node → Bool) :
    all scope p = scope.flatMap fun n => n.descendants.filter p := by
  rw [all, allNodes, List.filter_flatMap]

/-- To search for the first is to take the first of all. -/
theorem first?_eq_head?_all (scope : List Node) (p : Node → Bool) :
    first? scope p = (all scope p).head? := by
  rw [first?, all, List.head?_filter]

theorem allOfClass_name (scope : List Node) (cls : NodeClass) :
    allOfClass scope cls.name = .ok (all scope (cls.contains ·.kind)) := by
  rw [allOfClass, Query.class?_name]
  rfl

theorem firstOfClass?_name (scope : List Node) (cls : NodeClass) :
    firstOfClass? scope cls.name = .ok (all scope (cls.contains ·.kind)).head? := by
  rw [firstOfClass?, Query.class?_name, ← first?_eq_head?_all]
  rfl

theorem lastOfClass?_name (scope : List Node) (cls : NodeClass) :
    lastOfClass? scope cls.name = .ok (all scope (cls.contains ·.kind)).getLast? := by
  rw [lastOfClass?, Query.class?_name]
  rfl

/-- To search for a class and a name is to search for the name in what a
search for the class lists. -/
theorem descendantNamed?_name (f : Finder) (scope : List Node) (cls : NodeClass) (name : String) :
    f.descendantNamed? scope cls.name name =
      .ok ((all scope (cls.contains ·.kind)).find? (f.isNamed · name)) := by
  have hboth : (all scope (cls.contains ·.kind)).find? (f.isNamed · name) =
      first? scope fun n => cls.contains n.kind && f.isNamed n name := by
    simp only [all, first?, List.find?_filter, Bool.decide_and, Bool.decide_eq_true]
  rw [descendantNamed?, Query.class?_name, hboth]
  rfl

theorem hasDescendantNamed_name (f : Finder) (scope : List Node) (cls : NodeClass)
    (name : String) : f.hasDescendantNamed scope cls.name name =
      .ok ((all scope (cls.contains ·.kind)).any (f.isNamed · name)) := by
  rw [hasDescendantNamed, Query.class?_name, all, List.any_filter]
  rfl

/-- A node of one of several classes is there exactly if the list of one
of them is not empty. -/
theorem any_isAnyOf_iff (scope : List Node) (classes : List NodeClass) :
    (allNodes scope).any (·.isAnyOf classes) = true ↔
      ∃ cls ∈ classes, all scope (cls.contains ·.kind) ≠ [] := by
  simp only [List.any_eq_true, Node.isAnyOf, all, ne_eq, List.filter_eq_nil_iff, not_forall, not_not]
  constructor
  · rintro ⟨n, hn, cls, hcls, hkind⟩
    exact ⟨cls, hcls, n, hn, hkind⟩
  · rintro ⟨cls, hcls, n, hn, hkind⟩
    exact ⟨n, hn, cls, hcls, hkind⟩

/-- **The questions about a scope agree with one another.** The nodes of a
class are, for each node of the scope in turn, those that lie in it, in the
order of their addresses. All other answers can be read off these lists,
and a name that is no node class's is refused by every question alike. -/
theorem descendant_queries (f : Finder) (scope : List Node) :
    (∀ cls : NodeClass, ∃ parts : Node → List Node,
      (∀ n, ListsInOrder (parts n) n (cls.contains ·.kind)) ∧
      allOfClass scope cls.name = .ok (scope.flatMap parts)) ∧
    (∀ (cls : NodeClass) (found : List Node), allOfClass scope cls.name = .ok found →
      firstOfClass? scope cls.name = .ok found.head? ∧
      lastOfClass? scope cls.name = .ok found.getLast? ∧
      ∀ name, f.descendantNamed? scope cls.name name = .ok (found.find? (f.isNamed · name)) ∧
        f.hasDescendantNamed scope cls.name name = .ok (found.any (f.isNamed · name))) ∧
    (∀ classes : List NodeClass, ∃ answer,
      hasDescendantOfClasses scope (classes.map NodeClass.name) = .ok answer ∧
      (answer = true ↔ ∃ cls ∈ classes, ∃ found,
        allOfClass scope cls.name = .ok found ∧ found ≠ [])) ∧
    (∃ found, allOfClass scope "ClassLike" = .ok found ∧
      classLikes scope = found.filter (!·.isAnonymous) ∧
      firstNamedClassLike? scope = (classLikes scope).head?) ∧
    (∀ name : String,
      Query.allOfClass.Checks [name] (allOfClass scope name) ∧
      Query.firstOfClass.Checks [name] (firstOfClass? scope name) ∧
      Query.lastOfClass.Checks [name] (lastOfClass? scope name) ∧
      (∀ s, Query.descendantNamed.Checks [name] (f.descendantNamed? scope name s)) ∧
      (∀ s, Query.hasDescendantNamed.Checks [name] (f.hasDescendantNamed scope name s)) ∧
      ∀ n, Query.firstAncestorOfClass.Checks [name] (firstAncestorOfClass? n name)) ∧
    (∀ names : List String,
      Query.hasDescendantOfClasses.Checks names (hasDescendantOfClasses scope names) ∧
      (∀ n, Query.firstAncestorOfClasses.Checks names (firstAncestorOfClasses? n names)) ∧
      ∀ n, Query.firstPreviousOfClasses.Checks names (firstPreviousOfClasses? n names)) := by
  refine ⟨?lists, ?others, ?several, ?classLikes, ?oneName, ?manyNames⟩
  case lists =>
    intro cls
    refine ⟨fun n => n.descendants.filter (cls.contains ·.kind),
      fun n => listsInOrder_descendants n _, ?_⟩
    rw [allOfClass_name, all_eq_flatMap]
  case others =>
    intro cls found hfound
    rw [allOfClass_name, Except.ok.injEq] at hfound
    subst hfound
    exact ⟨firstOfClass?_name scope cls, lastOfClass?_name scope cls, fun name =>
      ⟨descendantNamed?_name f scope cls name, hasDescendantNamed_name f scope cls name⟩⟩
  case several =>
    intro classes
    refine ⟨(allNodes scope).any (·.isAnyOf classes), ?_, ?_⟩
    · rw [hasDescendantOfClasses, Query.classes?_map_name]
      rfl
    · rw [any_isAnyOf_iff]
      simp only [allOfClass_name, Except.ok.injEq, exists_eq_left']
  case classLikes =>
    refine ⟨_, allOfClass_name scope (.ofCategory .classLike), rfl, ?_⟩
    rw [classLikes, List.head?_filter, List.find?_filter, firstNamedClassLike?]
    simp only [Bool.decide_and, Bool.decide_eq_true]
  case oneName =>
    intro name
    exact ⟨(Query.checks_class? _ name).bind _, (Query.checks_class? _ name).bind _,
      (Query.checks_class? _ name).bind _, fun _ => (Query.checks_class? _ name).bind _,
      fun _ => (Query.checks_class? _ name).bind _, fun _ => (Query.checks_class? _ name).bind _⟩
  case manyNames =>
    intro names
    exact ⟨(Query.checks_classes? _ names).bind _, fun _ => (Query.checks_classes? _ names).bind _,
      fun _ => (Query.checks_classes? _ names).bind _⟩

end Finder

end Syntax

end TypeScribe

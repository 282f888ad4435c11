import Mathlib.Data.List.Basic
import TypeScribe.Syntax.Comparison
import TypeScribe.Syntax.Dump
import TypeScribe.Syntax.Naming
import TypeScribe.TypeHint.Tree
/-!
# Trees without trivia

`Tree.withoutTrivia` deletes the white space and the comments of a tree,
and nothing else: a node stays, whatever its kind. What is read off a tree
is the same before and after, since every reader passes over trivia in one
way or another. For readers that go through the children one by one this
is said once, in `flatMap_withoutTriviaOfAll`.
-/

namespace TypeScribe

namespace Syntax

namespace Tree

/-- Whether the tree is a token of white space or a comment. -/
def isTriviaToken : Tree → Bool
  | token k _ => k.isTrivia
  | node _ _ => false

mutual

/-- The tree without the trivia in it. -/
def withoutTrivia : Tree → Tree
  | token k s => token k s
  | node k cs => node k (withoutTriviaOfAll cs)

/-- Trees in a row, without the trivia among them and in them. -/
def withoutTriviaOfAll : List Tree → List Tree
  | [] => []
  | t :: ts =>
    if t.isTriviaToken then withoutTriviaOfAll ts else t.withoutTrivia :: withoutTriviaOfAll ts

end

variable {α : Type} {t : Tree} {ts cs : List Tree} {k : Kind}

/-! ## Children that are left -/

theorem withoutTriviaOfAll_cons_pos (h : t.isTriviaToken = true) :
    withoutTriviaOfAll (t :: ts) = withoutTriviaOfAll ts := by
  rw [withoutTriviaOfAll, if_pos h]

theorem withoutTriviaOfAll_cons_neg (h : ¬ t.isTriviaToken = true) :
    withoutTriviaOfAll (t :: ts) = t.withoutTrivia :: withoutTriviaOfAll ts := by
  rw [withoutTriviaOfAll, if_neg h]

theorem withoutTriviaOfAll_eq_map (ts : List Tree) :
    withoutTriviaOfAll ts = (ts.filter (!·.isTriviaToken)).map withoutTrivia := by
  induction ts with
  | nil => rfl
  | cons t ts ih =>
    by_cases h : t.isTriviaToken = true
    · rw [withoutTriviaOfAll_cons_pos h, ih, List.filter_cons_of_neg (by simp [h])]
    · rw [withoutTriviaOfAll_cons_neg h, ih, List.filter_cons_of_pos (by simp [h]), List.map_cons]

@[simp] theorem kind_withoutTrivia (t : Tree) : t.withoutTrivia.kind = t.kind := by
  cases t <;> rfl

/-- **What is collected from the children is collected from those that are
left**, if trivia contribute nothing and the other children what they
contribute without trivia. -/
theorem flatMap_withoutTriviaOfAll {f : Tree → List α} {g : α → α}
    (htrivia : ∀ k s, k.isTrivia = true → f (token k s) = [])
    (hsame : ∀ t ∈ ts, f t.withoutTrivia = (f t).map g) :
    (withoutTriviaOfAll ts).flatMap f = (ts.flatMap f).map g := by
  induction ts with
  | nil => rfl
  | cons t ts ih =>
    have hrest := ih fun u hu => hsame u (List.mem_cons_of_mem t hu)
    by_cases h : t.isTriviaToken = true
    · have hnone : f t = [] := by
        cases t with
        | token k s => exact htrivia k s h
        | node k cs => cases h
      rw [withoutTriviaOfAll_cons_pos h, hrest, List.flatMap_cons, hnone, List.nil_append]
    · rw [withoutTriviaOfAll_cons_neg h, List.flatMap_cons, List.flatMap_cons, hrest,
        hsame t List.mem_cons_self, List.map_append]

/-- The same for what each child contributes at most once. -/
theorem filterMap_withoutTriviaOfAll {f : Tree → Option α} {g : α → α}
    (htrivia : ∀ k s, k.isTrivia = true → f (token k s) = none)
    (hsame : ∀ t ∈ ts, f t.withoutTrivia = (f t).map g) :
    (withoutTriviaOfAll ts).filterMap f = (ts.filterMap f).map g := by
  rw [List.filterMap_eq_flatMap_toList, List.filterMap_eq_flatMap_toList]
  refine flatMap_withoutTriviaOfAll (fun k s hk => ?_) fun t ht => ?_
  · rw [htrivia k s hk, Option.toList_none]
  · rw [hsame t ht, Option.toList_map]

/-- And for the first child that contributes anything. -/
theorem findSome?_withoutTriviaOfAll {f : Tree → Option α} {g : α → α}
    (htrivia : ∀ k s, k.isTrivia = true → f (token k s) = none)
    (hsame : ∀ t ∈ ts, f t.withoutTrivia = (f t).map g) :
    (withoutTriviaOfAll ts).findSome? f = (ts.findSome? f).map g := by
  rw [← List.head?_filterMap, ← List.head?_filterMap, filterMap_withoutTriviaOfAll htrivia hsame,
    List.head?_map]

/-! ## Comparing and dumping -/

theorem significant_withoutTrivia (t : Tree) : t.withoutTrivia.significant = t.significant := by
  induction t using Tree.induction with
  | token k s => rfl
  | node k cs ih =>
    have hchildren : significantOfAll (withoutTriviaOfAll cs) = significantOfAll cs := by
      rw [significantOfAll_eq_flatMap, significantOfAll_eq_flatMap]
      have hcollect := flatMap_withoutTriviaOfAll (f := significant) (g := id)
        (fun k s hk => by rw [significant, if_pos hk]) fun t ht => by rw [ih t ht, List.map_id]
      rwa [List.map_id] at hcollect
    rw [withoutTrivia, significant, significant, hchildren]

/-- **Trivia do not matter to whether two trees are the same code.** -/
theorem sameCode_of_withoutTrivia_eq {a b : Tree} (h : a.withoutTrivia = b.withoutTrivia) :
    a.sameCode b = true := by
  rw [sameCode_iff, ← significant_withoutTrivia a, h, significant_withoutTrivia]

/-- A dump shows no trivia. -/
theorem isShown_of_isTrivia (h : k.isTrivia = true) : k.isShown = false := by
  have key : ∀ k ∈ Kind.all, k.isTrivia = true → k.isShown = false := by decide
  exact key k k.mem_all h

theorem shownTexts_withoutTriviaOfAll (cs : List Tree) :
    shownTexts (withoutTriviaOfAll cs) = shownTexts cs := by
  have hcollect : shownTexts (withoutTriviaOfAll cs) = (shownTexts cs).map id :=
    filterMap_withoutTriviaOfAll (fun k s hk => by simp [isShown_of_isTrivia hk])
      fun t _ => by cases t <;> simp [withoutTrivia]
  rwa [List.map_id] at hcollect

theorem dumpLinesOfAll_eq_flatMap (depth : Nat) (ts : List Tree) :
    dumpLinesOfAll depth ts = ts.flatMap (dumpLines depth) := by
  induction ts with
  | nil => rfl
  | cons t ts ih => rw [dumpLinesOfAll, ih, List.flatMap_cons]

theorem dumpLines_withoutTrivia (depth : Nat) (t : Tree) :
    t.withoutTrivia.dumpLines depth = t.dumpLines depth := by
  induction t using Tree.induction generalizing depth with
  | token k s => rfl
  | node k cs ih =>
    have hchildren : dumpLinesOfAll (depth + 1) (withoutTriviaOfAll cs) =
        dumpLinesOfAll (depth + 1) cs := by
      rw [dumpLinesOfAll_eq_flatMap, dumpLinesOfAll_eq_flatMap]
      have hcollect := flatMap_withoutTriviaOfAll (f := dumpLines (depth + 1)) (g := id)
        (fun k s _ => rfl) fun t ht => by rw [ih t ht, List.map_id]
      rwa [List.map_id] at hcollect
    rw [withoutTrivia, dumpLines, dumpLines, hchildren, dumpLine, dumpLine,
      shownTexts_withoutTriviaOfAll]

theorem dump_withoutTrivia (t : Tree) : t.withoutTrivia.dump = t.dump := by
  rw [dump, dump, dumpLines_withoutTrivia]

/-- Without trivia there are as many nodes, as there are as many lines. -/
theorem nodeCount_withoutTrivia (t : Tree) : t.withoutTrivia.nodeCount = t.nodeCount := by
  rw [← length_dumpLines 0, dumpLines_withoutTrivia, length_dumpLines]

/-! ## Names -/

theorem ownTokens_withoutTriviaOfAll (cs : List Tree) :
    ownTokens (withoutTriviaOfAll cs) = (ownTokens cs).filter (!·.1.isTrivia) := by
  induction cs with
  | nil => rfl
  | cons t cs ih =>
    cases t with
    | node k ds =>
      rw [withoutTriviaOfAll_cons_neg (by simp [isTriviaToken])]
      exact ih
    | token k s =>
      have htokens : ownTokens (token k s :: cs) = (k, s) :: ownTokens cs := rfl
      by_cases h : k.isTrivia = true
      · rw [withoutTriviaOfAll_cons_pos (by exact h), ih, htokens,
          List.filter_cons_of_neg (by simp [h])]
      · rw [withoutTriviaOfAll_cons_neg (by exact h), htokens, List.filter_cons_of_pos (by simp [h]),
          ← ih]
        rfl

theorem firstToken?_withoutTriviaOfAll (h : k.isTrivia = false) (cs : List Tree) :
    firstToken? k (withoutTriviaOfAll cs) = firstToken? k cs := by
  have hkind : ∀ x : Kind × String, decide ((!x.1.isTrivia) = true ∧ decide (x.1 = k) = true) =
      decide (x.1 = k) := by
    intro x
    by_cases hx : x.1 = k
    · simp [hx, h]
    · simp [hx]
  rw [firstToken?, firstToken?, ownTokens_withoutTriviaOfAll, List.find?_filter, funext hkind]

theorem spelledName_withoutTriviaOfAll (cs : List Tree) :
    spelledName (withoutTriviaOfAll cs) = spelledName cs := by
  simp [spelledName, ownTokens_withoutTriviaOfAll]

theorem asName?_withoutTrivia (t : Tree) : t.withoutTrivia.asName? = t.asName? := by
  cases t with
  | token k s => rfl
  | node k cs => cases k <;> simp [withoutTrivia, asName?, spelledName_withoutTriviaOfAll]

theorem variableName?_withoutTriviaOfAll (cs : List Tree) :
    variableName? (withoutTriviaOfAll cs) = variableName? cs := by
  rw [variableName?, variableName?, firstToken?_withoutTriviaOfAll rfl]

theorem filterMap_asName?_withoutTriviaOfAll (cs : List Tree) :
    (withoutTriviaOfAll cs).filterMap asName? = cs.filterMap asName? := by
  have hcollect : (withoutTriviaOfAll cs).filterMap asName? = (cs.filterMap asName?).map id :=
    filterMap_withoutTriviaOfAll (fun k s _ => rfl)
      fun t _ => by rw [asName?_withoutTrivia, Option.map_id_apply]
  rwa [List.map_id] at hcollect

theorem findSome?_asName?_withoutTriviaOfAll (cs : List Tree) :
    (withoutTriviaOfAll cs).findSome? asName? = cs.findSome? asName? := by
  rw [← List.head?_filterMap, filterMap_asName?_withoutTriviaOfAll, List.head?_filterMap]

theorem nameAfter?_withoutTriviaOfAll (keyword : Kind) (cs : List Tree) :
    nameAfter? keyword (withoutTriviaOfAll cs) = nameAfter? keyword cs := by
  have hfilter : (withoutTriviaOfAll cs).filter (!·.kind.isTrivia) =
      (cs.filter (!·.kind.isTrivia)).map withoutTrivia := by
    rw [withoutTriviaOfAll_eq_map, List.filter_map, List.filter_filter]
    congr 1
    refine List.filter_congr fun t _ => ?_
    cases t <;> simp [isTriviaToken, withoutTrivia, kind]
  -- the reader leaves trivia out itself, so both sides search one list for the keyword
  rw [nameAfter?, nameAfter?, hfilter, List.dropWhile_map]
  have hkind : ((fun t => decide (t.kind ≠ keyword)) ∘ withoutTrivia) =
      fun t : Tree => decide (t.kind ≠ keyword) := by
    funext t
    simp
  rw [hkind]
  generalize (cs.filter (!·.kind.isTrivia)).dropWhile (fun t => decide (t.kind ≠ keyword)) = found
  cases found with
  | nil => rfl
  | cons first later =>
    cases later with
    | nil => rfl
    | cons follower further => exact asName?_withoutTrivia follower

theorem nameOf?_withoutTriviaOfAll (k : Kind) (cs : List Tree) :
    nameOf? k (withoutTriviaOfAll cs) = nameOf? k cs := by
  have hvariable : ((withoutTriviaOfAll cs).findSome? asVariable?).bind variableName? =
      (cs.findSome? asVariable?).bind variableName? := by
    rw [findSome?_withoutTriviaOfAll (g := withoutTriviaOfAll) (fun k s _ => rfl) fun t _ => ?_,
      Option.bind_map]
    · congr 1
      funext ds
      exact variableName?_withoutTriviaOfAll ds
    · cases t with
      | token k s => rfl
      | node k ds => cases k <;> rfl
  cases k <;> simp only [nameOf?, variableName?_withoutTriviaOfAll, hvariable,
    spelledName_withoutTriviaOfAll, nameAfter?_withoutTriviaOfAll,
    findSome?_asName?_withoutTriviaOfAll, filterMap_asName?_withoutTriviaOfAll]

theorem name?_withoutTrivia (t : Tree) : t.withoutTrivia.name? = t.name? := by
  cases t with
  | token k s => rfl
  | node k cs => exact nameOf?_withoutTriviaOfAll k cs

theorem answersTo_withoutTrivia (t : Tree) (name : String) :
    t.withoutTrivia.answersTo name = t.answersTo name := by
  rw [answersTo, answersTo, name?_withoutTrivia, kind_withoutTrivia]

/-! ## Stated types -/

/-- What a hint states depends on its first name and on what its children
state. -/
theorem statedTy?_congr {ds : List Tree} (hname : firstToken? .ident cs = firstToken? .ident ds)
    (hfirst : firstTy? cs = firstTy? ds) (hall : allTys? cs = allTys? ds) :
    (node k cs).statedTy? = (node k ds).statedTy? := by
  cases k <;> simp only [statedTy?, hname, hfirst, hall]

theorem allTys?_withoutTriviaOfAll (hsame : ∀ t ∈ ts, t.withoutTrivia.statedTy? = t.statedTy?) :
    allTys? (withoutTriviaOfAll ts) = allTys? ts := by
  induction ts with
  | nil => rfl
  | cons t ts ih =>
    have hrest := ih fun u hu => hsame u (List.mem_cons_of_mem t hu)
    cases t with
    | token k s =>
      by_cases h : (token k s).isTriviaToken = true
      · rw [withoutTriviaOfAll_cons_pos h, allTys?, hrest]
      · rw [withoutTriviaOfAll_cons_neg h, withoutTrivia, allTys?, allTys?, hrest]
    | node k cs =>
      have hfirst := hsame (node k cs) List.mem_cons_self
      rw [withoutTrivia] at hfirst
      rw [withoutTriviaOfAll_cons_neg (by simp [isTriviaToken]), withoutTrivia, allTys?, allTys?, hfirst,
        hrest]

theorem statedTy?_withoutTrivia (t : Tree) : t.withoutTrivia.statedTy? = t.statedTy? := by
  induction t using Tree.induction with
  | token k s => rfl
  | node k cs ih =>
    have hfirst : firstTy? (withoutTriviaOfAll cs) = firstTy? cs := by
      rw [firstTy?_eq_findSome?, firstTy?_eq_findSome?]
      have hcollect := findSome?_withoutTriviaOfAll (f := statedTy?) (g := id)
        (fun k s _ => statedTy?_token k s) fun t ht => by rw [ih t ht, Option.map_id_apply]
      rwa [Option.map_id_apply] at hcollect
    exact statedTy?_congr (firstToken?_withoutTriviaOfAll rfl cs) hfirst
      (allTys?_withoutTriviaOfAll ih)

end Tree

end Syntax

end TypeScribe

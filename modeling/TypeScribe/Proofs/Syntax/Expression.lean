import Std.Data.String.ToInt
import TypeScribe.Proofs.Syntax.Emission
import TypeScribe.Proofs.Syntax.Trivia
/-!
# Comparing built expressions

A comparison goes by a flat sequence of kinds and tokens in which nothing
marks where a node ends. For the expressions of this module that is
enough. The first kind tells the shorthand, or the literal's token does,
and then the parts follow, each of which can be told from what comes after
it (`IsDelimited`): an expression by its own parts, a list of arguments by
the parenthesis that closes it. So built expressions are the same code if
and only if they are the same expression.
-/

namespace TypeScribe

namespace Syntax

/-- The expressions that the shorthands build out of each other. -/
inductive Expr
  | var (name : String)
  | int (value : Int)
  | string (value : String)
  | constFetch (name : String)
  | propertyFetch (object property : String)
  | methodCall (receiver : Expr) (method : String) (arguments : List Expr)
  | staticCall (cls method : String) (arguments : List Expr)
  | funcCall (function : String) (arguments : List Expr)
  | newObject (cls : String) (arguments : List Expr)
  | binary (left : Expr) (op : String) (right : Expr)
  | assign (target value : Expr)

namespace Expr

mutual

/-- The program that builds the expression. -/
def program : Expr → Program
  | var s => .var s
  | int value => .int value
  | string value => .string value
  | constFetch s => .constFetch s
  | propertyFetch object property => .propertyFetch object property
  | methodCall receiver method as => .methodCall receiver.program method (arguments as)
  | staticCall cls method as => .staticCall cls method (arguments as)
  | funcCall function as => .funcCall function (arguments as)
  | newObject cls as => .newObject cls (arguments as)
  | binary left op right => .binary left.program op right.program
  | assign target value => .assign target.program value.program

/-- The program for arguments, separated by commas. -/
def arguments : List Expr → Program
  | [] => []
  | [e] => .arg e.program
  | e :: f :: es => .arg e.program ++ .comma ++ arguments (f :: es)

end

/-- The kind of the node an expression is. -/
def kind : Expr → Kind
  | var _ => .var
  | int _ | string _ => .literal
  | constFetch _ => .constFetch
  | propertyFetch _ _ => .propertyFetch
  | methodCall _ _ _ => .methodCall
  | staticCall _ _ _ => .staticCall
  | funcCall _ _ => .funcCall
  | newObject _ _ => .newExpr
  | binary _ _ _ => .binaryOp
  | assign _ _ => .assign

variable {e f : Expr} {as bs : List Expr} {rest rest' : List (Kind × Option String)}

open Program (emits_nil emits_token emits_space emits_name emits_var)

mutual

/-- **An expression's program emits one node.** -/
theorem exists_emits : ∀ e : Expr, ∃ cs, e.program.Emits [.node e.kind cs]
  | var s => ⟨_, emits_var s⟩
  | int _ | string _ => ⟨_, (emits_token _ _).node _⟩
  | constFetch s => ⟨_, (emits_name s).node _⟩
  | propertyFetch object property =>
    ⟨_, (((emits_var object).append (emits_token _ _)).append (emits_name property)).node _⟩
  | methodCall receiver method as => by
    obtain ⟨_, hreceiver⟩ := exists_emits receiver
    obtain ⟨_, has⟩ := exists_emits_arguments as
    exact ⟨_, (((hreceiver.append (emits_token _ _)).append (emits_name method)).append
      has.args).node _⟩
  | staticCall cls method as => by
    obtain ⟨_, has⟩ := exists_emits_arguments as
    exact ⟨_, ((((emits_name cls).append (emits_token _ _)).append (emits_name method)).append
      has.args).node _⟩
  | funcCall function as => by
    obtain ⟨_, has⟩ := exists_emits_arguments as
    exact ⟨_, ((emits_name function).append has.args).node _⟩
  | newObject cls as => by
    obtain ⟨_, has⟩ := exists_emits_arguments as
    exact ⟨_, ((((emits_token _ _).append emits_space).append (emits_name cls)).append
      has.args).node _⟩
  | binary left op right => by
    obtain ⟨_, hleft⟩ := exists_emits left
    obtain ⟨_, hright⟩ := exists_emits right
    exact ⟨_, ((((hleft.append emits_space).append (emits_token _ _)).append emits_space).append
      hright).node _⟩
  | assign target value => by
    obtain ⟨_, htarget⟩ := exists_emits target
    obtain ⟨_, hvalue⟩ := exists_emits value
    exact ⟨_, ((((htarget.append emits_space).append (emits_token _ _)).append emits_space).append
      hvalue).node _⟩

theorem exists_emits_arguments : ∀ as : List Expr, ∃ ts, (arguments as).Emits ts
  | [] => ⟨_, emits_nil⟩
  | [e] => by
    obtain ⟨_, he⟩ := exists_emits e
    exact ⟨_, he.node _⟩
  | e :: f :: as => by
    obtain ⟨_, he⟩ := exists_emits e
    obtain ⟨_, has⟩ := exists_emits_arguments (f :: as)
    exact ⟨_, ((he.node _).append ((emits_token _ _).append emits_space)).append has⟩

end

/-! ## What is compared of an expression -/

theorem significant_var (s : String) :
    (var s).program.significant = [(.var, none), (.varName, some ("$" ++ s))] := rfl

theorem significant_int (value : Int) : (int value).program.significant =
    [(.literal, none), (.intNumber, some (toString value))] := rfl

theorem significant_string (value : String) : (string value).program.significant =
    [(.literal, none), (.stringLiteral, some ("'" ++ value ++ "'"))] := rfl

theorem significant_constFetch (s : String) : (constFetch s).program.significant =
    [(.constFetch, none), (.name, none), (.ident, some s)] := rfl

theorem significant_propertyFetch (object property : String) :
    (propertyFetch object property).program.significant =
      [(.propertyFetch, none), (.var, none), (.varName, some ("$" ++ object)),
        (.arrow, some "->"), (.name, none), (.ident, some property)] := rfl

theorem significant_methodCall (e : Expr) (method : String) (as : List Expr) :
    (methodCall e method as).program.significant = (.methodCall, none) ::
      (e.program.significant ++ (.arrow, some "->") :: (.name, none) :: (.ident, some method) ::
        (Program.args (arguments as)).significant) := by
  change (Program.methodCall e.program method (arguments as)).significant = _
  rw [Program.methodCall, Program.significant_node rfl, Program.significant_append,
    Program.significant_append, Program.significant_append, List.append_assoc, List.append_assoc]
  rfl

theorem significant_staticCall (cls method : String) (as : List Expr) :
    (staticCall cls method as).program.significant = (.staticCall, none) :: (.name, none) ::
      (.ident, some cls) :: (.doubleColon, some "::") :: (.name, none) :: (.ident, some method) ::
        (Program.args (arguments as)).significant := by
  change (Program.staticCall cls method (arguments as)).significant = _
  rw [Program.staticCall, Program.significant_node rfl, Program.significant_append]
  rfl

theorem significant_funcCall (function : String) (as : List Expr) :
    (funcCall function as).program.significant = (.funcCall, none) :: (.name, none) ::
      (.ident, some function) :: (Program.args (arguments as)).significant := by
  change (Program.funcCall function (arguments as)).significant = _
  rw [Program.funcCall, Program.significant_node rfl, Program.significant_append]
  rfl

theorem significant_newObject (cls : String) (as : List Expr) :
    (newObject cls as).program.significant = (.newExpr, none) :: (.kwNew, some "new") ::
      (.name, none) :: (.ident, some cls) :: (Program.args (arguments as)).significant := by
  change (Program.newObject cls (arguments as)).significant = _
  rw [Program.newObject, Program.significant_node rfl, Program.significant_append]
  rfl

theorem significant_binary (e : Expr) (op : String) (f : Expr) :
    (binary e op f).program.significant = (.binaryOp, none) ::
      (e.program.significant ++ (.operator, some op) :: f.program.significant) := by
  change (Program.binary e.program op f.program).significant = _
  rw [Program.binary, Program.significant_node rfl, Program.significant_append,
    Program.significant_append, Program.significant_append, Program.significant_append,
    List.append_assoc, List.append_assoc, List.append_assoc]
  rfl

theorem significant_assign (e f : Expr) : (assign e f).program.significant = (.assign, none) ::
    (e.program.significant ++ (.equals, some "=") :: f.program.significant) := by
  change (Program.assign e.program f.program).significant = _
  rw [Program.assign, Program.significant_node rfl, Program.significant_append,
    Program.significant_append, Program.significant_append, Program.significant_append,
    List.append_assoc, List.append_assoc, List.append_assoc]
  rfl

theorem significant_args (as : List Expr) : (Program.args (arguments as)).significant =
    (.argList, none) :: (.parenOpen, some "(") ::
      ((arguments as).significant ++ [(.parenClose, some ")")]) := by
  rw [Program.args, Program.significant_node rfl, Program.significant_append,
    Program.significant_append, Program.significant_token rfl, Program.significant_token rfl]
  rfl

theorem significant_arguments_nil : (arguments []).significant = [] := rfl

theorem significant_arguments_cons (e : Expr) (as : List Expr) :
    (arguments (e :: as)).significant = (.arg, none) :: e.program.significant ++
      (if as = [] then [] else (.comma, some ",") :: (arguments as).significant) := by
  have harg : (Program.arg e.program).significant = (.arg, none) :: e.program.significant :=
    Program.significant_node rfl e.program
  cases as with
  | nil =>
    rw [if_pos rfl, List.append_nil]
    exact harg
  | cons f as =>
    rw [arguments, Program.significant_append, Program.significant_append, harg,
      if_neg (List.cons_ne_nil f as), List.append_assoc]
    rfl

/-! ## Where an expression ends -/

/-- The sequence of an expression begins with its kind. -/
theorem head?_significant (e : Expr) (rest : List (Kind × Option String)) :
    (e.program.significant ++ rest).head? = some (e.kind, none) := by
  cases e <;> rfl

theorem kind_eq_of_append_eq (h : e.program.significant ++ rest = f.program.significant ++ rest') :
    e.kind = f.kind := by
  have hhead := congrArg List.head? h
  rw [head?_significant, head?_significant] at hhead
  exact congrArg Prod.fst (Option.some.inj hhead)

/-- No other expression's sequence begins where this one's does, nor goes on
differently after it. -/
def IsDelimited (e : Expr) : Prop :=
  ∀ (f : Expr) (rest rest' : List (Kind × Option String)),
    e.program.significant ++ rest = f.program.significant ++ rest' → e = f ∧ rest = rest'

/-- **A closing parenthesis delimits the arguments.** -/
theorem arguments_append_inj (has : ∀ a ∈ as, a.IsDelimited)
    (h : (arguments as).significant ++ (.parenClose, some ")") :: rest =
      (arguments bs).significant ++ (.parenClose, some ")") :: rest') :
    as = bs ∧ rest = rest' := by
  induction as generalizing bs with
  | nil =>
    cases bs with
    | nil => exact ⟨rfl, (List.cons.inj h).2⟩
    | cons b bs => simp [significant_arguments_nil, significant_arguments_cons] at h
  | cons a as ih =>
    cases bs with
    | nil => simp [significant_arguments_nil, significant_arguments_cons] at h
    | cons b bs =>
      simp only [significant_arguments_cons, List.cons_append, List.append_assoc, List.cons.injEq,
        true_and] at h
      obtain ⟨rfl, hnext⟩ := has a List.mem_cons_self _ _ _ h
      -- either both lists end here or a comma follows in both
      cases as with
      | nil =>
        cases bs with
        | nil => exact ⟨rfl, (List.cons.inj hnext).2⟩
        | cons b bs => simp at hnext
      | cons c as =>
        cases bs with
        | nil => simp at hnext
        | cons b bs =>
          simp only [reduceCtorEq, if_false, List.cons_append, List.cons.injEq, true_and] at hnext
          obtain ⟨hlater, hend⟩ := ih (fun d hd => has d (List.mem_cons_of_mem a hd)) hnext
          exact ⟨congrArg (a :: ·) hlater, hend⟩

theorem args_append_inj (has : ∀ a ∈ as, a.IsDelimited)
    (h : (Program.args (arguments as)).significant ++ rest =
      (Program.args (arguments bs)).significant ++ rest') : as = bs ∧ rest = rest' := by
  simp only [significant_args, List.cons_append, List.append_assoc, List.nil_append,
    List.cons.injEq, true_and] at h
  exact arguments_append_inj has h

/-! ## One shorthand after the other -/

theorem isDelimited_var (s : String) : (var s).IsDelimited := by
  intro f rest rest' h
  cases f with
  | var t => simpa [significant_var] using h
  | _ => cases kind_eq_of_append_eq h

/-- The token of a literal tells numbers from strings. -/
theorem isDelimited_int (value : Int) : (int value).IsDelimited := by
  intro f rest rest' h
  cases f with
  | int other => simpa [significant_int] using h
  | string other => simp [significant_int, significant_string] at h
  | _ => cases kind_eq_of_append_eq h

theorem isDelimited_string (value : String) : (string value).IsDelimited := by
  intro f rest rest' h
  cases f with
  | string other => simpa [significant_string] using h
  | int other => simp [significant_int, significant_string] at h
  | _ => cases kind_eq_of_append_eq h

theorem isDelimited_constFetch (s : String) : (constFetch s).IsDelimited := by
  intro f rest rest' h
  cases f with
  | constFetch t => simpa [significant_constFetch] using h
  | _ => cases kind_eq_of_append_eq h

theorem isDelimited_propertyFetch (object property : String) :
    (propertyFetch object property).IsDelimited := by
  intro f rest rest' h
  cases f with
  | propertyFetch object' property' =>
    simpa [significant_propertyFetch, and_assoc] using h
  | _ => cases kind_eq_of_append_eq h

theorem isDelimited_methodCall (he : e.IsDelimited) (method : String)
    (has : ∀ a ∈ as, a.IsDelimited) : (methodCall e method as).IsDelimited := by
  intro f rest rest' h
  cases f with
  | methodCall e' method' bs =>
    simp only [significant_methodCall, List.cons_append, List.append_assoc,
      List.cons.injEq, true_and] at h
    -- the receivers end at one place, so the arrow and what follows it can be compared
    obtain ⟨rfl, hcall⟩ := he _ _ _ h
    simp only [List.cons.injEq, Prod.mk.injEq, Option.some.injEq, true_and] at hcall
    obtain ⟨rfl, hargs⟩ := hcall
    obtain ⟨rfl, rfl⟩ := args_append_inj has hargs
    exact ⟨rfl, rfl⟩
  | _ => cases kind_eq_of_append_eq h

theorem isDelimited_staticCall (cls method : String) (has : ∀ a ∈ as, a.IsDelimited) :
    (staticCall cls method as).IsDelimited := by
  intro f rest rest' h
  cases f with
  | staticCall cls' method' bs =>
    simp only [significant_staticCall, List.cons_append, List.cons.injEq,
      Prod.mk.injEq, Option.some.injEq, true_and] at h
    obtain ⟨rfl, rfl, hargs⟩ := h
    obtain ⟨rfl, rfl⟩ := args_append_inj has hargs
    exact ⟨rfl, rfl⟩
  | _ => cases kind_eq_of_append_eq h

theorem isDelimited_funcCall (function : String) (has : ∀ a ∈ as, a.IsDelimited) :
    (funcCall function as).IsDelimited := by
  intro f rest rest' h
  cases f with
  | funcCall function' bs =>
    simp only [significant_funcCall, List.cons_append, List.cons.injEq,
      Prod.mk.injEq, Option.some.injEq, true_and] at h
    obtain ⟨rfl, hargs⟩ := h
    obtain ⟨rfl, rfl⟩ := args_append_inj has hargs
    exact ⟨rfl, rfl⟩
  | _ => cases kind_eq_of_append_eq h

theorem isDelimited_newObject (cls : String) (has : ∀ a ∈ as, a.IsDelimited) :
    (newObject cls as).IsDelimited := by
  intro f rest rest' h
  cases f with
  | newObject cls' bs =>
    simp only [significant_newObject, List.cons_append, List.cons.injEq,
      Prod.mk.injEq, Option.some.injEq, true_and] at h
    obtain ⟨rfl, hargs⟩ := h
    obtain ⟨rfl, rfl⟩ := args_append_inj has hargs
    exact ⟨rfl, rfl⟩
  | _ => cases kind_eq_of_append_eq h

theorem isDelimited_binary (he : e.IsDelimited) (op : String) (hf : f.IsDelimited) :
    (binary e op f).IsDelimited := by
  intro g rest rest' h
  cases g with
  | binary e' op' f' =>
    simp only [significant_binary, List.cons_append, List.append_assoc,
      List.cons.injEq, true_and] at h
    obtain ⟨rfl, hright⟩ := he _ _ _ h
    simp only [List.cons.injEq, Prod.mk.injEq, Option.some.injEq, true_and] at hright
    obtain ⟨rfl, hright⟩ := hright
    obtain ⟨rfl, rfl⟩ := hf _ _ _ hright
    exact ⟨rfl, rfl⟩
  | _ => cases kind_eq_of_append_eq h

theorem isDelimited_assign (he : e.IsDelimited) (hf : f.IsDelimited) :
    (assign e f).IsDelimited := by
  intro g rest rest' h
  cases g with
  | assign e' f' =>
    simp only [significant_assign, List.cons_append, List.append_assoc,
      List.cons.injEq, true_and] at h
    obtain ⟨rfl, hvalue⟩ := he _ _ _ h
    obtain ⟨rfl, rfl⟩ := hf _ _ _ (List.cons.inj hvalue).2
    exact ⟨rfl, rfl⟩
  | _ => cases kind_eq_of_append_eq h

mutual

/-- **Every expression is delimited.** -/
theorem isDelimited : ∀ e : Expr, e.IsDelimited
  | var s => isDelimited_var s
  | int value => isDelimited_int value
  | string value => isDelimited_string value
  | constFetch s => isDelimited_constFetch s
  | propertyFetch object property => isDelimited_propertyFetch object property
  | methodCall receiver method as =>
    isDelimited_methodCall (isDelimited receiver) method (isDelimited_of_mem as)
  | staticCall cls method as => isDelimited_staticCall cls method (isDelimited_of_mem as)
  | funcCall function as => isDelimited_funcCall function (isDelimited_of_mem as)
  | newObject cls as => isDelimited_newObject cls (isDelimited_of_mem as)
  | binary left op right => isDelimited_binary (isDelimited left) op (isDelimited right)
  | assign target value => isDelimited_assign (isDelimited target) (isDelimited value)

theorem isDelimited_of_mem : ∀ as : List Expr, ∀ a ∈ as, a.IsDelimited
  | [], _, ha => nomatch ha
  | _ :: _, _, .head _ => isDelimited _
  | _ :: as, a, .tail _ ha => isDelimited_of_mem as a ha

end

/-! ## Being the same code -/

/-- A node compares as its program does, with trivia added or not. -/
theorem significant_eq {k : Kind} {cs : List Tree} {t : Tree} (he : e.program.Emits [.node k cs])
    (ht : t.withoutTrivia = (Tree.node k cs).withoutTrivia) :
    t.significant = e.program.significant := by
  rw [← Tree.significant_withoutTrivia, ht, Tree.significant_withoutTrivia, ← he.significant,
    Tree.significantOfAll, Tree.significantOfAll, List.append_nil]

/-- **The comparison is exact on built expressions.** Two of them are the
same code if and only if they are the same expression, and trivia added to
either tree do not change that. -/
theorem sameCode_iff_eq (e f : Expr) :
    ∃ s t, e.program.build? = some s ∧ f.program.build? = some t ∧
      ∀ s' t' : Tree, s'.withoutTrivia = s.withoutTrivia → t'.withoutTrivia = t.withoutTrivia →
        (s'.sameCode t' = true ↔ e = f) := by
  obtain ⟨cs, hemits⟩ := exists_emits e
  obtain ⟨ds, hemits'⟩ := exists_emits f
  refine ⟨_, _, Program.build?_of_emits hemits, Program.build?_of_emits hemits',
    fun s' t' hs ht => ?_⟩
  rw [Tree.sameCode_iff, significant_eq hemits hs, significant_eq hemits' ht]
  constructor
  · intro h
    exact (isDelimited e f [] [] (congrArg (· ++ []) h)).1
  · rintro rfl
    rfl

end Expr

end Syntax

end TypeScribe

import TypeScribe.Proofs.Syntax.Emission
import TypeScribe.Syntax.View
/-!
# What is built is read back

The readers of names go by position among the children: the first name,
the last name, the name after a keyword. A shorthand puts the name it is
given where the reader looks, whatever the programs it is given for the
other parts emit: receivers, arguments, parameters and bodies may hold
names, keywords and trivia of their own.
-/

namespace TypeScribe

namespace Syntax

namespace Tree

variable {keyword k : Kind} {ts us : List Tree} {t : Tree} {s text : String}

@[simp] theorem spelledName_ident (s : String) : spelledName [token .ident s] = s := by
  simp [spelledName, ownTokens, Kind.isTrivia, String.join]

@[simp] theorem asName?_ident (s : String) : (node .name [token .ident s]).asName? = some s := by
  rw [asName?, spelledName_ident]

/-- The last name is the one after which there is none. -/
theorem getLast?_asName? (ts : List Tree) (s : String) (hus : us.filterMap asName? = []) :
    ((ts ++ [node .name [.token .ident s]] ++ us).filterMap asName?).getLast? = some s := by
  rw [List.filterMap_append, List.filterMap_append, hus, List.append_nil]
  simp

/-- Nothing before a keyword matters to the name after it. -/
theorem nameAfter?_append (h : ∀ t ∈ ts, t.kind ≠ keyword) (us : List Tree) :
    nameAfter? keyword (ts ++ us) = nameAfter? keyword us := by
  have hskipped : ∀ t ∈ ts.filter (!·.kind.isTrivia), decide (t.kind ≠ keyword) = true := by
    intro t ht
    exact decide_eq_true (h t (List.mem_filter.1 ht).1)
  rw [nameAfter?, nameAfter?, List.filter_append, List.dropWhile_append_of_pos hskipped]

/-- Without the keyword there is no name after it. -/
theorem nameAfter?_eq_none (h : ∀ t ∈ ts, t.kind ≠ keyword) : nameAfter? keyword ts = none := by
  rw [← List.append_nil ts, nameAfter?_append h]
  rfl

/-- What follows a keyword and a space is read as the name, if it is one. -/
theorem nameAfter?_cons_self (hkeyword : keyword.isTrivia = false) (ht : t.kind.isTrivia = false)
    (text : String) (ts : List Tree) :
    nameAfter? keyword (token keyword text :: token .whitespace " " :: t :: ts) = t.asName? := by
  have hleft : (token keyword text :: token .whitespace " " :: t :: ts).filter
      (!·.kind.isTrivia) = token keyword text :: t :: ts.filter (!·.kind.isTrivia) := by
    rw [List.filter_cons_of_pos (by simp [kind, hkeyword]), List.filter_cons_of_neg (by decide),
      List.filter_cons_of_pos (by simp [ht])]
  rw [nameAfter?, hleft, List.dropWhile_cons_of_neg (by simp [kind])]

end Tree

namespace Program

variable {p receiver arguments parameters body : Program} {ts us : List Tree} {s : String}

/-- The program makes one node wherever it is run, and that is the name the
node carries, or it carries none. -/
def IsNamed (p : Program) (name : Option String) : Prop :=
  ∃ k cs, p.Emits [.node k cs] ∧ (Tree.node k cs).name? = name

theorem Emits.params (h : p.Emits ts) : Emits (params p)
    [.node .paramList (.token .parenOpen "(" :: ts ++ [.token .parenClose ")"])] :=
  (((emits_token _ _).append h).append (emits_token _ _)).node _

theorem Emits.block (h : p.Emits ts) : Emits (block p) [.node .block
    (.token .braceOpen "\x7b" :: .token .newline "\n" :: ts ++ [.token .braceClose "\x7d"])] :=
  ((((emits_token _ _).append (emits_token _ _)).append h).append (emits_token _ _)).node _

theorem Emits.members (h : p.Emits ts) : Emits (members p)
    (.token .braceOpen "\x7b" :: .token .newline "\n" :: ts ++
      [.token .braceClose "\x7d", .token .newline "\n"]) := by
  have hall := ((((emits_token .braceOpen "\x7b").append (emits_token .newline "\n")).append h).append
    (emits_token .braceClose "\x7d")).append (emits_token .newline "\n")
  simpa [Program.members, newline] using hall

/-! ## Names that are found by their place -/

theorem isNamed_name (s : String) : (name s).IsNamed (some s) :=
  ⟨_, _, emits_name s, Tree.asName?_ident s⟩

theorem isNamed_constFetch (s : String) : (constFetch s).IsNamed (some s) :=
  ⟨_, _, (emits_name s).node _, Tree.asName?_ident s⟩

theorem isNamed_funcCall (harguments : arguments.Emits ts) (s : String) :
    (funcCall s arguments).IsNamed (some s) :=
  ⟨_, _, ((emits_name s).append harguments.args).node _, Tree.asName?_ident s⟩

theorem isNamed_function (hparameters : parameters.Emits ts) (hbody : body.Emits us) (s : String) :
    (function s parameters body).IsNamed (some s) :=
  ⟨_, _, (((((((emits_token _ _).append emits_space).append (emits_name s)).append
    hparameters.params).append emits_space).append hbody.block).append (emits_token _ _)).node _,
    Tree.asName?_ident s⟩

theorem isNamed_method (hparameters : parameters.Emits ts) (hbody : body.Emits us) (s : String) :
    (method s parameters body).IsNamed (some s) :=
  ⟨_, _, (((((((((emits_token _ _).append emits_space).append (emits_token _ _)).append
    emits_space).append (emits_name s)).append hparameters.params).append emits_space).append
    hbody.block).append (emits_token _ _)).node _, Tree.asName?_ident s⟩

theorem isNamed_interfaceDecl (hbody : body.Emits ts) (s : String) :
    (interfaceDecl s body).IsNamed (some s) :=
  ⟨_, _, (((((emits_token _ _).append emits_space).append (emits_name s)).append
    emits_space).append hbody.members).node _, Tree.asName?_ident s⟩

theorem isNamed_traitDecl (hbody : body.Emits ts) (s : String) :
    (traitDecl s body).IsNamed (some s) :=
  ⟨_, _, (((((emits_token _ _).append emits_space).append (emits_name s)).append
    emits_space).append hbody.members).node _, Tree.asName?_ident s⟩

/-- The receiver may emit names, but the method comes after it. -/
theorem isNamed_methodCall (hreceiver : receiver.Emits ts) (harguments : arguments.Emits us)
    (s : String) : (methodCall receiver s arguments).IsNamed (some s) :=
  ⟨_, _, (((hreceiver.append (emits_token _ _)).append (emits_name s)).append
    harguments.args).node _, Tree.getLast?_asName? _ s rfl⟩

theorem isNamed_staticCall (harguments : arguments.Emits ts) (cls s : String) :
    (staticCall cls s arguments).IsNamed (some s) :=
  ⟨_, _, ((((emits_name cls).append (emits_token _ _)).append (emits_name s)).append
    harguments.args).node _, Tree.asName?_ident s⟩

theorem isNamed_propertyFetch (object s : String) : (propertyFetch object s).IsNamed (some s) :=
  ⟨_, _, (((emits_var object).append (emits_token _ _)).append (emits_name s)).node _,
    Tree.asName?_ident s⟩

/-! ## Variables -/

theorem variableName?_varName (s : String) :
    Tree.variableName? [.token .varName ("$" ++ s)] = some (Text.dropLeading '$' s) := by
  apply congrArg some
  apply String.toList_inj.1
  rw [Text.toList_dropLeading, Text.toList_dropLeading, String.toList_append]
  rfl

theorem isNamed_var (s : String) : (var s).IsNamed (some (Text.dropLeading '$' s)) :=
  ⟨_, _, emits_var s, variableName?_varName s⟩

theorem isNamed_property (s : String) : (property s).IsNamed (some (Text.dropLeading '$' s)) :=
  ⟨_, _, ((((emits_token _ _).append emits_space).append (emits_var s)).append
    ((emits_token _ _).append (emits_token _ _))).node _, variableName?_varName s⟩

/-! ## Classes -/

/-- What a class holds before its members: the keyword, its name and its
parent. -/
def classHead (s parent : Option String) : List Tree :=
  [.token .kwClass "class", .token .whitespace " "] ++
    (s.map fun s => [.node .name [.token .ident s], .token .whitespace " "]).getD [] ++
    (parent.map fun s => [.token .kwExtends "extends", .token .whitespace " ",
      .node .name [.token .ident s], .token .whitespace " "]).getD []

theorem emits_classExtending (hbody : body.Emits ts) (s parent : Option String) :
    (classExtending s parent body).Emits [.node .classDecl (classHead s parent ++
      (.token .braceOpen "\x7b" :: .token .newline "\n" :: ts ++
        [.token .braceClose "\x7d", .token .newline "\n"]))] := by
  have hname : Emits ((s.map fun s => name s ++ space).getD [])
      ((s.map fun s => [.node .name [.token .ident s], .token .whitespace " "]).getD []) := by
    cases s with
    | none => exact emits_nil
    | some s => exact (emits_name s).append emits_space
  have hparent : Emits
      ((parent.map fun s => token .kwExtends "extends" ++ space ++ name s ++ space).getD [])
      ((parent.map fun s => [.token .kwExtends "extends", .token .whitespace " ",
        .node .name [.token .ident s], .token .whitespace " "]).getD []) := by
    cases parent with
    | none => exact emits_nil
    | some s =>
      exact (((emits_token _ _).append emits_space).append (emits_name s)).append emits_space
  exact (((((emits_token _ _).append emits_space).append hname).append hparent).append
    hbody.members).node _

theorem nameAfter?_kwClass (s parent : Option String) (ts : List Tree) :
    Tree.nameAfter? .kwClass (classHead s parent ++ .token .braceOpen "\x7b" :: ts) = s := by
  cases s with
  | some s => exact (Tree.nameAfter?_cons_self rfl rfl _ _).trans (Tree.asName?_ident s)
  | none => cases parent <;> exact Tree.nameAfter?_cons_self rfl rfl _ _

theorem kind_ne_of_mem_classHead {s : Option String} {t : Tree} (ht : t ∈ classHead s none) :
    t.kind ≠ .kwExtends := by
  have hall : ∀ u ∈ classHead s none, u.kind ≠ .kwExtends := by
    cases s <;> simp [classHead, Tree.kind]
  exact hall t ht

theorem nameAfter?_kwExtends (s : Option String) (parent : String) (ts : List Tree) :
    Tree.nameAfter? .kwExtends (classHead s (some parent) ++ ts) = some parent := by
  have hsplit : classHead s (some parent) ++ ts = classHead s none ++
      (.token .kwExtends "extends" :: .token .whitespace " " ::
        .node .name [.token .ident parent] :: .token .whitespace " " :: ts) := by
    simp [classHead]
  -- neither the class's keyword nor its name is the one that is looked for
  rw [hsplit, Tree.nameAfter?_append fun _ => kind_ne_of_mem_classHead,
    Tree.nameAfter?_cons_self rfl rfl, Tree.asName?_ident]

/-- A class that is built with a parent names it. One that is built without
has none, unless its body has the keyword. -/
theorem exists_emits_classExtending (hbody : body.Emits ts) (s parent : Option String) :
    ∃ cs, (classExtending s parent body).Emits [.node .classDecl cs] ∧
      Tree.nameAfter? .kwClass cs = s ∧
      (∀ p, parent = some p → Tree.nameAfter? .kwExtends cs = some p) ∧
      (parent = none → (∀ t ∈ ts, t.kind ≠ .kwExtends) → Tree.nameAfter? .kwExtends cs = none) := by
  refine ⟨_, emits_classExtending hbody s parent, nameAfter?_kwClass .., ?_, ?_⟩
  · rintro p rfl
    exact nameAfter?_kwExtends ..
  · rintro rfl hts
    refine Tree.nameAfter?_eq_none fun t ht => ?_
    simp only [List.mem_append, List.mem_cons, List.not_mem_nil, or_false] at ht
    rcases ht with ht | (rfl | rfl | ht) | rfl | rfl
    · exact kind_ne_of_mem_classHead ht
    · simp [Tree.kind]
    · simp [Tree.kind]
    · exact hts t ht
    · simp [Tree.kind]
    · simp [Tree.kind]

theorem isNamed_classDecl (hbody : body.Emits ts) (s : Option String) :
    (classDecl s body).IsNamed s := by
  obtain ⟨cs, hemits, hname, -⟩ := exists_emits_classExtending hbody s none
  exact ⟨_, cs, hemits, hname⟩

/-! ## All shorthands -/

/-- **What is built is read back.** Whatever receiver, arguments, parameters
and body emit, each node carries the name its shorthand was given: calls
and fetches that of the method, the function or the property, declarations
their own, variables theirs without leading `$`. A class is anonymous if
and only if it was built without a name. It has the parent it was built
with, and none if it was built without one and the keyword is not among
what the body emits. -/
theorem names_of_shorthands (hreceiver : receiver.IsBalanced) (harguments : arguments.IsBalanced)
    (hparameters : parameters.IsBalanced) (hbody : body.IsBalanced) (s : String) :
    (name s).IsNamed (some s) ∧
    (constFetch s).IsNamed (some s) ∧
    (funcCall s arguments).IsNamed (some s) ∧
    (function s parameters body).IsNamed (some s) ∧
    (method s parameters body).IsNamed (some s) ∧
    (interfaceDecl s body).IsNamed (some s) ∧
    (traitDecl s body).IsNamed (some s) ∧
    (classDecl (some s) body).IsNamed (some s) ∧
    (classDecl none body).IsNamed none ∧
    (methodCall receiver s arguments).IsNamed (some s) ∧
    (∀ cls, (staticCall cls s arguments).IsNamed (some s)) ∧
    (∀ object, (propertyFetch object s).IsNamed (some s)) ∧
    (var s).IsNamed (some (Text.dropLeading '$' s)) ∧
    (property s).IsNamed (some (Text.dropLeading '$' s)) ∧
    ∀ cls parent : Option String, ∃ cs, (classExtending cls parent body).Emits [.node .classDecl cs] ∧
      ∀ n : Node, n.tree = .node .classDecl cs →
        ∃ q, n.view = .classDecl cls q n.statements ∧ (n.isAnonymous = true ↔ cls = none) ∧
        (∀ p, parent = some p → q = some p) ∧
        (parent = none → (∀ ts, body.Emits ts → ∀ t ∈ ts, t.kind ≠ .kwExtends) → q = none) := by
  obtain ⟨_, hreceiver⟩ := isBalanced_iff.1 hreceiver
  obtain ⟨_, harguments⟩ := isBalanced_iff.1 harguments
  obtain ⟨_, hparameters⟩ := isBalanced_iff.1 hparameters
  obtain ⟨ts, hbody⟩ := isBalanced_iff.1 hbody
  refine ⟨isNamed_name s, isNamed_constFetch s, isNamed_funcCall harguments s,
    isNamed_function hparameters hbody s, isNamed_method hparameters hbody s,
    isNamed_interfaceDecl hbody s, isNamed_traitDecl hbody s, isNamed_classDecl hbody (some s),
    isNamed_classDecl hbody none, isNamed_methodCall hreceiver harguments s,
    fun cls => isNamed_staticCall harguments cls s, fun object => isNamed_propertyFetch object s,
    isNamed_var s, isNamed_property s, fun cls parent => ?_⟩
  obtain ⟨cs, hemits, hname, hparent, hnone⟩ := exists_emits_classExtending hbody cls parent
  refine ⟨cs, hemits, fun n hn => ?_⟩
  obtain ⟨k, ds, path⟩ := n
  obtain ⟨rfl, rfl⟩ := Tree.node.inj hn
  refine ⟨Tree.nameAfter? .kwExtends ds, ?_, ?_, hparent, fun hwithout hts =>
    hnone hwithout (hts ts hbody)⟩
  · rw [Node.view, hname]
  · rw [Node.isAnonymous, hname]
    cases cls <;> simp

/-- Receiver, argument and body have names of their own here, and the body
has the keyword. -/
theorem names_of_shorthands_decoys :
    (name "Decoy" ++ var "x").IsBalanced ∧ (arg (name "decoy")).IsBalanced ∧
    (param "p" (some (name "Hint"))).IsBalanced ∧
    (comment "/* none */" ++ token .kwExtends "extends" ++ name "Decoy").IsBalanced ∧
    (methodCall (name "Decoy" ++ var "x") "run" (arg (name "decoy"))).IsNamed (some "run") ∧
    ∃ cs, (classExtending none (some "Base")
        (comment "/* none */" ++ token .kwExtends "extends" ++ name "Decoy")).Emits
          [.node .classDecl cs] ∧
      ∀ n : Node, n.tree = .node .classDecl cs →
        n.view = .classDecl none (some "Base") n.statements := by
  have hreceiver : (name "Decoy" ++ var "x").IsBalanced := rfl
  have harguments : (arg (name "decoy")).IsBalanced := rfl
  have hparameters : (param "p" (some (name "Hint"))).IsBalanced := rfl
  have hbody : (comment "/* none */" ++ token .kwExtends "extends" ++ name "Decoy").IsBalanced := rfl
  obtain ⟨-, -, -, -, -, -, -, -, -, hrun, -, -, -, -, hclass⟩ :=
    names_of_shorthands hreceiver harguments hparameters hbody "run"
  obtain ⟨cs, hemits, hread⟩ := hclass none (some "Base")
  refine ⟨hreceiver, harguments, hparameters, hbody, hrun, cs, hemits, fun n hn => ?_⟩
  obtain ⟨q, hview, -, hparent, -⟩ := hread n hn
  rw [hview, hparent "Base" rfl]

end Program

end Syntax

end TypeScribe

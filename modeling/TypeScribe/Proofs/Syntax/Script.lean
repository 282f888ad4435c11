import TypeScribe.Proofs.TypeHint.Building
/-!
# Scripts

A shorthand takes programs for its parts, and these are written with
shorthands in turn. A script is such a program as it is written: nodes are
entered and left, and between that stand commands, each with scripts of its
own. A script is balanced if it leaves every node it enters and no other,
and every command in it, at any depth, was given balanced scripts.

Whatever happens inside a command, the nodes that were open before it are
open after it, and most commands add one node to the innermost
(`emits_program`). So the steps of a balanced script are balanced
(`isBalanced_program`).
-/

namespace TypeScribe

namespace Syntax

mutual

/-- A program as it is written. -/
inductive Script
  /-- Nothing more. -/
  | done
  /-- Begin a node. -/
  | enter (kind : Kind) (rest : Script)
  /-- End the innermost open node. -/
  | leave (rest : Script)
  | call (command : Command) (rest : Script)

/-- A token, a node with what is in it, or a shorthand. -/
inductive Command
  -- tokens
  | token (kind : Kind) (text : String)
  | space
  | newline
  | comment (text : String)
  | comma
  -- a node of any kind
  | node (kind : Kind) (body : Script)
  -- leaves
  | name (text : String)
  | var (text : String)
  | int (value : Int)
  | string (value : String)
  | constFetch (text : String)
  -- expressions
  | assign (target value : Script)
  | binary (left : Script) (op : String) (right : Script)
  | propertyFetch (object property : String)
  | methodCall (receiver : Script) (method : String) (arguments : Script)
  | staticCall (cls method : String) (arguments : Script)
  | funcCall (function : String) (arguments : Script)
  | newObject (cls : String) (arguments : Script)
  | newAnonymousClass (body : Script)
  | closure (parameters body : Script)
  | args (body : Script)
  | arg (body : Script)
  -- statements
  | exprStmt (body : Script)
  | assignStmt (text : String) (value : Script)
  | returnStmt (value : Option Script)
  | echo (value : Script)
  | ifStmt (condition body : Script)
  | block (body : Script)
  -- declarations
  | params (body : Script)
  | param (text : String) (hint : Option Script)
  | function (text : String) (parameters body : Script)
  | method (text : String) (parameters body : Script)
  | property (text : String)
  | classDecl (text : Option String) (body : Script)
  | classExtending (text parent : Option String) (body : Script)
  | interfaceDecl (text : String) (body : Script)
  | traitDecl (text : String) (body : Script)
  -- hints
  | hint (hint : TypeHint)

end

mutual

/-- The steps of a script in order. -/
def Script.program : Script → Program
  | .done => []
  | .enter k rest => .enter k :: rest.program
  | .leave rest => .leave :: rest.program
  | .call c rest => c.program ++ rest.program

/-- The steps of a command. -/
def Command.program : Command → Program
  | .token k s => .token k s
  | .space => .space
  | .newline => .newline
  | .comment s => .comment s
  | .comma => .comma
  | .node k body => .node k body.program
  | .name s => .name s
  | .var s => .var s
  | .int value => .int value
  | .string value => .string value
  | .constFetch s => .constFetch s
  | .assign target value => .assign target.program value.program
  | .binary left op right => .binary left.program op right.program
  | .propertyFetch object property => .propertyFetch object property
  | .methodCall receiver method arguments =>
    .methodCall receiver.program method arguments.program
  | .staticCall cls method arguments => .staticCall cls method arguments.program
  | .funcCall function arguments => .funcCall function arguments.program
  | .newObject cls arguments => .newObject cls arguments.program
  | .newAnonymousClass body => .newAnonymousClass body.program
  | .closure parameters body => .closure parameters.program body.program
  | .args body => .args body.program
  | .arg body => .arg body.program
  | .exprStmt body => .exprStmt body.program
  | .assignStmt s value => .assignStmt s value.program
  | .returnStmt none => .returnStmt none
  | .returnStmt (some value) => .returnStmt (some value.program)
  | .echo value => .echo value.program
  | .ifStmt condition body => .ifStmt condition.program body.program
  | .block body => .block body.program
  | .params body => .params body.program
  | .param s none => .param s none
  | .param s (some hint) => .param s (some hint.program)
  | .function s parameters body => .function s parameters.program body.program
  | .method s parameters body => .method s parameters.program body.program
  | .property s => .property s
  | .classDecl s body => .classDecl s body.program
  | .classExtending s parent body => .classExtending s parent body.program
  | .interfaceDecl s body => .interfaceDecl s body.program
  | .traitDecl s body => .traitDecl s body.program
  | .hint a => a.program

end

namespace Command

/-- The scripts a command was given. -/
def parts : Command → List Script
  | .token .. | .space | .newline | .comment _ | .comma => []
  | .name _ | .var _ | .int _ | .string _ | .constFetch _ => []
  | .propertyFetch .. | .property _ | .hint _ => []
  | .node _ body | .args body | .arg body | .exprStmt body | .block body | .params body => [body]
  | .newAnonymousClass body | .classDecl _ body | .classExtending _ _ body => [body]
  | .interfaceDecl _ body | .traitDecl _ body => [body]
  | .staticCall _ _ arguments | .funcCall _ arguments | .newObject _ arguments => [arguments]
  | .assignStmt _ value | .echo value => [value]
  | .returnStmt value => value.toList
  | .param _ stated => stated.toList
  | .assign target value => [target, value]
  | .binary left _ right => [left, right]
  | .methodCall receiver _ arguments => [receiver, arguments]
  | .ifStmt condition body => [condition, body]
  | .closure parameters body | .function _ parameters body | .method _ parameters body =>
    [parameters, body]

/-- Whether the command makes a node, and not just tokens. -/
def makesNode : Command → Bool
  | .token .. | .space | .newline | .comment _ | .comma => false
  | _ => true

end Command

namespace Script

/-- With `depth` nodes of its own open before it, the script has `after`
open in the end. It leaves no node that it did not enter, and so do the
scripts in its commands, each of which has none of its own open before it
and after it. -/
inductive Leads : Nat → Script → Nat → Prop
  | done (depth : Nat) : Leads depth .done depth
  | enter {depth after : Nat} {rest : Script} (kind : Kind) :
      Leads (depth + 1) rest after → Leads depth (.enter kind rest) after
  | leave {depth after : Nat} {rest : Script} :
      Leads depth rest after → Leads (depth + 1) (.leave rest) after
  | call {depth after : Nat} {c : Command} {rest : Script} :
      (∀ part ∈ c.parts, Leads 0 part 0) → Leads depth rest after →
      Leads depth (.call c rest) after

/-- The script leaves every node it enters and no other, and so do all
scripts in it. -/
def IsBalanced (p : Script) : Prop := Leads 0 p 0

end Script

/-! ## Balanced programs -/

namespace Program

variable {p q : Program}

@[grind ←] theorem isBalanced_nil : IsBalanced [] := rfl

@[grind ←] theorem isBalanced_token (k : Kind) (s : String) : (token k s).IsBalanced := rfl

@[grind ←] theorem IsBalanced.append (hp : p.IsBalanced) (hq : q.IsBalanced) :
    (p ++ q).IsBalanced := by
  obtain ⟨ts, hts⟩ := isBalanced_iff.1 hp
  obtain ⟨us, hus⟩ := isBalanced_iff.1 hq
  exact isBalanced_iff.2 ⟨ts ++ us, hts.append hus⟩

@[grind ←] theorem IsBalanced.node (hp : p.IsBalanced) (k : Kind) : (node k p).IsBalanced := by
  obtain ⟨ts, hts⟩ := isBalanced_iff.1 hp
  exact isBalanced_iff.2 ⟨[.node k ts], hts.node k⟩

/-- A balanced program in front does not change how many nodes are open
after the rest. -/
theorem depthAfter?_append (hp : p.IsBalanced) (depth : Nat) (q : Program) :
    depthAfter? depth (p ++ q) = depthAfter? depth q := by
  obtain ⟨ts, hts⟩ := isBalanced_iff.1 hp
  -- any builder with so many open nodes will do
  let b : Builder := ⟨[], List.replicate depth (.root, [])⟩
  have hcount := depthAfter?_length_opened b (p ++ q)
  rw [Builder.run_append, hts b, Option.bind_some, ← depthAfter?_length_opened] at hcount
  simpa [b, Builder.append] using hcount

@[grind ←] theorem isBalanced_name (s : String) : (name s).IsBalanced := rfl

@[grind ←] theorem isBalanced_var (s : String) : (var s).IsBalanced := rfl

@[grind ←] theorem isBalanced_space : space.IsBalanced := rfl

@[grind ←] theorem isBalanced_newline : newline.IsBalanced := rfl

@[grind ←] theorem isBalanced_endOfStatement : endOfStatement.IsBalanced := rfl

@[grind ←] theorem IsBalanced.args (hp : p.IsBalanced) : (args p).IsBalanced :=
  (((isBalanced_token _ _).append hp).append (isBalanced_token _ _)).node _

@[grind ←] theorem IsBalanced.params (hp : p.IsBalanced) : (params p).IsBalanced :=
  (((isBalanced_token _ _).append hp).append (isBalanced_token _ _)).node _

@[grind ←] theorem IsBalanced.block (hp : p.IsBalanced) : (block p).IsBalanced :=
  ((((isBalanced_token _ _).append isBalanced_newline).append hp).append
    (isBalanced_token _ _)).node _

@[grind ←] theorem IsBalanced.members (hp : p.IsBalanced) : (members p).IsBalanced :=
  ((((isBalanced_token _ _).append isBalanced_newline).append hp).append
    (isBalanced_token _ _)).append isBalanced_newline

@[grind ←] theorem IsBalanced.assign (hp : p.IsBalanced) (hq : q.IsBalanced) :
    (assign p q).IsBalanced :=
  ((((hp.append isBalanced_space).append (isBalanced_token _ _)).append
    isBalanced_space).append hq).node _

/-- A part that may be missing is balanced if it is when it is there. -/
theorem isBalanced_getD {α : Type} {f : α → Program} (hf : ∀ a, (f a).IsBalanced) (o : Option α) :
    ((o.map f).getD []).IsBalanced := by
  cases o with
  | none => exact isBalanced_nil
  | some a => exact hf a

/-- What a class holds: its keyword, its name and parent if it has them,
and its members. -/
theorem IsBalanced.classBody (hp : p.IsBalanced) (s parent : Option String) :
    IsBalanced (token .kwClass "class" ++ space ++ (s.map fun s => name s ++ space).getD [] ++
      (parent.map fun s => token .kwExtends "extends" ++ space ++ name s ++ space).getD [] ++
      Program.members p) := by
  have hname : ((s.map fun s => name s ++ space).getD []).IsBalanced :=
    isBalanced_getD (by grind) s
  have hparent : ((parent.map fun s =>
      token .kwExtends "extends" ++ space ++ name s ++ space).getD []).IsBalanced :=
    isBalanced_getD (by grind) parent
  grind

@[grind ←] theorem IsBalanced.classDecl (hp : p.IsBalanced) (s : Option String) :
    (classDecl s p).IsBalanced :=
  (hp.classBody s none).node _

end Program

namespace Command

variable {c : Command}

/-- **A command that makes a node** is the program of that node, whose body
is balanced if the parts are. -/
theorem exists_program_eq_node (hparts : ∀ part ∈ c.parts, part.program.IsBalanced)
    (hnode : c.makesNode = true) :
    ∃ k body, c.program = .node k body ∧ Program.IsBalanced body := by
  cases c with
  | token | space | newline | comment | comma => cases hnode
  | classDecl s body => exact ⟨_, _, rfl, (hparts body (by simp [parts])).classBody s none⟩
  | classExtending s parent body =>
    exact ⟨_, _, rfl, (hparts body (by simp [parts])).classBody s parent⟩
  | returnStmt value =>
    cases value with
    | none => exact ⟨_, _, rfl, rfl⟩
    | some value =>
      have hvalue := hparts value (by simp [parts])
      exact ⟨_, _, rfl, by grind⟩
  | param s stated =>
    cases stated with
    | none => exact ⟨_, _, rfl, rfl⟩
    | some stated =>
      have hstated := hparts stated (by simp [parts])
      exact ⟨_, _, rfl, by grind⟩
  | hint a =>
    obtain ⟨k, body, ts, heq, hts⟩ := a.exists_program_eq_node
    exact ⟨k, body, heq, Program.isBalanced_iff.2 ⟨ts, hts⟩⟩
  | _ =>
    -- every other command is its node at sight, and its body is made of balanced programs
    simp only [parts, List.mem_cons, List.not_mem_nil, or_false, forall_eq_or_imp,
      forall_eq] at hparts
    exact ⟨_, _, rfl, by grind⟩

theorem isBalanced_program (hparts : ∀ part ∈ c.parts, part.program.IsBalanced) :
    c.program.IsBalanced := by
  cases hnode : c.makesNode with
  | true =>
    obtain ⟨k, body, heq, hbody⟩ := exists_program_eq_node hparts hnode
    exact heq ▸ hbody.node k
  | false =>
    cases c with
    | token | space | newline | comment | comma => rfl
    | _ => cases hnode

end Command

namespace Script

variable {p : Script} {depth after : Nat}

/-- **What is counted on a script is counted on its steps.** -/
theorem Leads.depthAfter?_program (h : Leads depth p after) :
    Program.depthAfter? depth p.program = some after := by
  induction h with
  | done depth => rfl
  | enter kind _ ih => exact ih
  | leave _ ih => exact ih
  | call _ _ hparts ih =>
    -- a command's steps are balanced if those of its parts are, and then they do not count
    rw [program, Program.depthAfter?_append (Command.isBalanced_program hparts), ih]

/-- **The steps of a balanced script are balanced.** -/
theorem IsBalanced.program (h : p.IsBalanced) : p.program.IsBalanced := h.depthAfter?_program

end Script

/-- **A command leaves the open nodes as it found them**, on whatever
builder it is run. What it emits goes into the innermost one, and if the
command is one for a node, that is this node. -/
theorem Command.emits_program {c : Command} (hparts : ∀ part ∈ c.parts, part.IsBalanced) :
    ∃ ts, c.program.Emits ts ∧ (c.makesNode = true → ∃ k cs, ts = [.node k cs]) := by
  have hprograms : ∀ part ∈ c.parts, part.program.IsBalanced :=
    fun part hpart => (hparts part hpart).program
  cases hnode : c.makesNode with
  | true =>
    obtain ⟨k, body, heq, hbody⟩ := exists_program_eq_node hprograms hnode
    obtain ⟨cs, hcs⟩ := Program.isBalanced_iff.1 hbody
    exact ⟨[.node k cs], heq ▸ hcs.node k, fun _ => ⟨k, cs, rfl⟩⟩
  | false =>
    obtain ⟨ts, hts⟩ := Program.isBalanced_iff.1 (isBalanced_program hprograms)
    exact ⟨ts, hts, fun h => absurd h Bool.false_ne_true⟩

end Syntax

end TypeScribe

/-!
# Kinds of tokens and nodes

Every leaf and every node of a syntax tree has a kind. The kinds are
numbered, tokens before nodes, and one more kind after the last node kind
bounds the numbering; no tree holds it. A kind's name is how it appears in
dumps and how a caller asks for it.
-/

namespace TypeScribe

namespace Syntax

/-- What a token or a node of a syntax tree is. -/
inductive Kind
  -- punctuation
  | parenOpen | parenClose | braceOpen | braceClose | semicolon | comma | equals | question
  | pipe | amp | arrow | doubleColon | operator
  -- keywords
  | kwClass | kwInterface | kwTrait | kwFunction | kwReturn | kwNew | kwEcho | kwIf | kwExtends
  | kwPublic
  -- names and literals
  | ident | varName | intNumber | stringLiteral
  -- trivia
  | whitespace | newline | comment
  -- statement lists
  | root | block
  -- declarations and statements
  | classDecl | interfaceDecl | traitDecl | functionDecl | methodDecl | propertyDecl | exprStmt
  | returnStmt | echoStmt | ifStmt
  -- expressions
  | assign | var | methodCall | staticCall | funcCall | propertyFetch | newExpr | closure
  | binaryOp | constFetch | literal
  -- parts of the above
  | name | paramList | param | argList | arg
  -- type hints
  | typeName | fullyQualifiedName | nullableType | unionType
  -- what no parser could place
  | error
  /-- The bound of the numbering. -/
  | sentinel
deriving DecidableEq, Repr

namespace Kind

/-- All kinds in the order of their numbers, the bound last. -/
def all : List Kind :=
  [parenOpen, parenClose, braceOpen, braceClose, semicolon, comma, equals, question, pipe, amp,
    arrow, doubleColon, operator, kwClass, kwInterface, kwTrait, kwFunction, kwReturn, kwNew,
    kwEcho, kwIf, kwExtends, kwPublic, ident, varName, intNumber, stringLiteral, whitespace,
    newline, comment, root, block, classDecl, interfaceDecl, traitDecl, functionDecl, methodDecl,
    propertyDecl, exprStmt, returnStmt, echoStmt, ifStmt, assign, var, methodCall, staticCall,
    funcCall, propertyFetch, newExpr, closure, binaryOp, constFetch, literal, name, paramList,
    param, argList, arg, typeName, fullyQualifiedName, nullableType, unionType, error, sentinel]

/-- A kind's number. -/
def raw (k : Kind) : Nat := k.ctorIdx

/-- The kind of a number below the bound. -/
def ofRaw? (n : Nat) : Option Kind :=
  if n < sentinel.raw then all[n]? else none

/-- A kind's name. -/
def label : Kind → String
  | parenOpen => "ParenOpen"
  | parenClose => "ParenClose"
  | braceOpen => "BraceOpen"
  | braceClose => "BraceClose"
  | semicolon => "Semicolon"
  | comma => "Comma"
  | equals => "Equals"
  | question => "Question"
  | pipe => "Pipe"
  | amp => "Amp"
  | arrow => "Arrow"
  | doubleColon => "DoubleColon"
  | operator => "Operator"
  | kwClass => "KwClass"
  | kwInterface => "KwInterface"
  | kwTrait => "KwTrait"
  | kwFunction => "KwFunction"
  | kwReturn => "KwReturn"
  | kwNew => "KwNew"
  | kwEcho => "KwEcho"
  | kwIf => "KwIf"
  | kwExtends => "KwExtends"
  | kwPublic => "KwPublic"
  | ident => "Ident"
  | varName => "VarName"
  | intNumber => "IntNumber"
  | stringLiteral => "StringLiteral"
  | whitespace => "Whitespace"
  | newline => "Newline"
  | comment => "Comment"
  | root => "Root"
  | block => "Block"
  | classDecl => "Class"
  | interfaceDecl => "Interface"
  | traitDecl => "Trait"
  | functionDecl => "Function"
  | methodDecl => "ClassMethod"
  | propertyDecl => "Property"
  | exprStmt => "ExpressionStmt"
  | returnStmt => "ReturnStmt"
  | echoStmt => "EchoStmt"
  | ifStmt => "IfStmt"
  | assign => "Assign"
  | var => "Variable"
  | methodCall => "MethodCall"
  | staticCall => "StaticCall"
  | funcCall => "FuncCall"
  | propertyFetch => "PropertyFetch"
  | newExpr => "New"
  | closure => "Closure"
  | binaryOp => "BinaryOp"
  | constFetch => "ConstFetch"
  | literal => "Literal"
  | name => "Name"
  | paramList => "ParamList"
  | param => "Param"
  | argList => "ArgList"
  | arg => "Arg"
  | typeName => "TypeName"
  | fullyQualifiedName => "FullyQualifiedName"
  | nullableType => "NullableType"
  | unionType => "UnionType"
  | error => "Error"
  | sentinel => "__LAST"

/-- The kind of a given name. -/
def ofLabel? (s : String) : Option Kind :=
  all.find? (·.label = s)

/-- White space and comments, which carry no meaning. -/
def isTrivia : Kind → Bool
  | whitespace | newline | comment => true
  | _ => false

/-- Whether the kind is a token's. -/
def isToken (k : Kind) : Bool :=
  k.raw < root.raw

/-- Whether the kind is a node's. -/
def isNode (k : Kind) : Bool :=
  !k.isToken && k != sentinel

/-- Node kinds that hold a sequence of statements. -/
def isStatementList : Kind → Bool
  | root | block => true
  | _ => false

/-! ## The numbering -/

theorem mem_all (k : Kind) : k ∈ all := by
  cases k <;> decide

/-- A kind stands at its number's place. -/
theorem getElem?_all (k : Kind) : all[k.raw]? = some k := by
  cases k <;> rfl

theorem raw_lt (k : Kind) : k.raw < 64 := by
  cases k <;> decide

/-- The bound has the greatest number. -/
theorem raw_le (k : Kind) : k.raw ≤ sentinel.raw :=
  Nat.le_of_lt_succ k.raw_lt

/-- **Different kinds have different numbers.** -/
theorem raw_injective {k l : Kind} (h : k.raw = l.raw) : k = l := by
  have := getElem?_all k
  rw [h, getElem?_all l] at this
  exact (Option.some.inj this).symm

/-- Up to the bound, every number is a kind's. -/
theorem exists_raw_eq {n : Nat} (h : n ≤ sentinel.raw) : ∃ k : Kind, k.raw = n := by
  have key : ∀ n ≤ sentinel.raw, ∃ k ∈ all, k.raw = n := by decide
  obtain ⟨k, -, hk⟩ := key n h
  exact ⟨k, hk⟩

/-- Below the bound, number and kind determine each other. -/
theorem ofRaw?_raw {k : Kind} (h : k ≠ sentinel) : ofRaw? k.raw = some k := by
  have key : ∀ k ∈ all, k ≠ sentinel → ofRaw? k.raw = some k := by decide
  exact key k k.mem_all h

theorem raw_lt_sentinel_iff (k : Kind) : k.raw < sentinel.raw ↔ k ≠ sentinel := by
  constructor
  · rintro hlt rfl
    exact absurd hlt (Nat.lt_irrefl _)
  · intro hne
    exact Nat.lt_of_le_of_ne k.raw_le fun h => hne (raw_injective h)

/-- No number below the bound is refused. -/
theorem exists_ofRaw?_eq {n : Nat} (h : n < sentinel.raw) :
    ∃ k, ofRaw? n = some k ∧ k.raw = n := by
  obtain ⟨k, rfl⟩ := exists_raw_eq (Nat.le_of_lt h)
  exact ⟨k, ofRaw?_raw (k.raw_lt_sentinel_iff.1 h), rfl⟩

/-- Trivia are tokens. -/
theorem isToken_of_isTrivia {k : Kind} (h : k.isTrivia = true) : k.isToken = true := by
  have key : ∀ k ∈ all, k.isTrivia = true → k.isToken = true := by decide
  exact key k k.mem_all h

end Kind

end Syntax

end TypeScribe

import TypeScribe.Syntax.Program
/-!
# Shorthands for common code

Programs for the usual expressions, statements and declarations, laid out
the way the code is printed: one space around operators and before an
opening brace, one statement to a line, no indentation. Where a shorthand
takes a program, that program emits the part, whatever it is.
-/

namespace TypeScribe

namespace Syntax

namespace Program

/-! ## Trivia -/

/-- One space. -/
def space : Program := token .whitespace " "

/-- One line feed. -/
def newline : Program := token .newline "\n"

/-- A comment, given with its marks. -/
def comment (s : String) : Program := token .comment s

/-! ## Leaves -/

/-- A name. -/
def name (s : String) : Program := node .name (token .ident s)

/-- A variable, given without its `$`. -/
def var (s : String) : Program := node .var (token .varName ("$" ++ s))

/-- An integer literal. -/
def int (value : Int) : Program := node .literal (token .intNumber (toString value))

/-- A string literal in single quotes. -/
def string (value : String) : Program :=
  node .literal (token .stringLiteral ("'" ++ value ++ "'"))

/-- A constant. -/
def constFetch (s : String) : Program := node .constFetch (name s)

/-! ## Expressions -/

/-- An argument list in parentheses. -/
def args (body : Program) : Program :=
  node .argList (token .parenOpen "(" ++ body ++ token .parenClose ")")

/-- One argument. -/
def arg (body : Program) : Program := node .arg body

/-- A comma between arguments or parameters. -/
def comma : Program := token .comma "," ++ space

/-- `target = value` -/
def assign (target value : Program) : Program :=
  node .assign (target ++ space ++ token .equals "=" ++ space ++ value)

/-- `left op right` -/
def binary (left : Program) (op : String) (right : Program) : Program :=
  node .binaryOp (left ++ space ++ token .operator op ++ space ++ right)

/-- `$object->property` -/
def propertyFetch (object property : String) : Program :=
  node .propertyFetch (var object ++ token .arrow "->" ++ name property)

/-- `receiver->method(arguments)` -/
def methodCall (receiver : Program) (method : String) (arguments : Program) : Program :=
  node .methodCall (receiver ++ token .arrow "->" ++ name method ++ args arguments)

/-- `Class::method(arguments)` -/
def staticCall (cls method : String) (arguments : Program) : Program :=
  node .staticCall (name cls ++ token .doubleColon "::" ++ name method ++ args arguments)

/-- `function(arguments)` -/
def funcCall (function : String) (arguments : Program) : Program :=
  node .funcCall (name function ++ args arguments)

/-- `new Class(arguments)` -/
def newObject (cls : String) (arguments : Program) : Program :=
  node .newExpr (token .kwNew "new" ++ space ++ name cls ++ args arguments)

/-! ## Blocks and parameters -/

/-- Statements in braces. -/
def block (body : Program) : Program :=
  node .block (token .braceOpen "\x7b" ++ newline ++ body ++ token .braceClose "\x7d")

/-- A parameter list in parentheses. -/
def params (body : Program) : Program :=
  node .paramList (token .parenOpen "(" ++ body ++ token .parenClose ")")

/-- One parameter, given without its `$`, with a hint if there is
one. -/
def param (s : String) (hint : Option Program) : Program :=
  node .param ((hint.map (· ++ space)).getD [] ++ var s)

/-- `function (parameters) (body)` -/
def closure (parameters body : Program) : Program :=
  node .closure (token .kwFunction "function" ++ params parameters ++ space ++ block body)

/-! ## Statements -/

/-- The end of a simple statement. -/
def endOfStatement : Program := token .semicolon ";" ++ newline

/-- An expression as a statement. -/
def exprStmt (body : Program) : Program := node .exprStmt (body ++ endOfStatement)

/-- `$name = value;` -/
def assignStmt (s : String) (value : Program) : Program := exprStmt (assign (var s) value)

/-- `return value;`, or without the value. -/
def returnStmt (value : Option Program) : Program :=
  node .returnStmt (token .kwReturn "return" ++ (value.map (space ++ ·)).getD [] ++ endOfStatement)

/-- `echo value;` -/
def echo (value : Program) : Program :=
  node .echoStmt (token .kwEcho "echo" ++ space ++ value ++ endOfStatement)

/-- `if (condition) body` -/
def ifStmt (condition body : Program) : Program :=
  node .ifStmt (token .kwIf "if" ++ space ++ token .parenOpen "(" ++ condition ++
    token .parenClose ")" ++ space ++ block body ++ newline)

/-! ## Declarations -/

/-- A function. -/
def function (s : String) (parameters body : Program) : Program :=
  node .functionDecl (token .kwFunction "function" ++ space ++ name s ++ params parameters ++
    space ++ block body ++ newline)

/-- A public method. -/
def method (s : String) (parameters body : Program) : Program :=
  node .methodDecl (token .kwPublic "public" ++ space ++ token .kwFunction "function" ++ space ++
    name s ++ params parameters ++ space ++ block body ++ newline)

/-- A public property, given without its `$`. -/
def property (s : String) : Program :=
  node .propertyDecl (token .kwPublic "public" ++ space ++ var s ++ endOfStatement)

/-- The members of a declaration in braces. -/
def members (body : Program) : Program :=
  token .braceOpen "\x7b" ++ newline ++ body ++ token .braceClose "\x7d" ++ newline

/-- A class, which is anonymous without a name, and extends its parent if
one is given. -/
def classExtending (s parent : Option String) (body : Program) : Program :=
  node .classDecl (token .kwClass "class" ++ space ++
    (s.map fun s => name s ++ space).getD [] ++
    (parent.map fun s => token .kwExtends "extends" ++ space ++ name s ++ space).getD [] ++
    members body)

/-- A class without a parent. -/
def classDecl (s : Option String) (body : Program) : Program := classExtending s none body

/-- `new class` with the given members. -/
def newAnonymousClass (body : Program) : Program :=
  node .newExpr (token .kwNew "new" ++ space ++ classDecl none body)

/-- An interface. -/
def interfaceDecl (s : String) (body : Program) : Program :=
  node .interfaceDecl (token .kwInterface "interface" ++ space ++ name s ++ space ++ members body)

/-- A trait. -/
def traitDecl (s : String) (body : Program) : Program :=
  node .traitDecl (token .kwTrait "trait" ++ space ++ name s ++ space ++ members body)

end Program

end Syntax

end TypeScribe

import TypeScribe.Text.Fold
import TypeScribe.Syntax.Tree
/-!
# Names of nodes

The name a node carries: a variable's without its `$`, a declaration's
own, a call's callee. `Tree.answersTo` asks whether a node has a given
name. Variables and properties have their names exactly; classes,
functions, methods and constants have them up to root and case
(`Text.SameName`).
-/

namespace TypeScribe

namespace Syntax

namespace Tree

/-- The tokens among a node's children, each with its kind. -/
def ownTokens (cs : List Tree) : List (Kind × String) :=
  cs.filterMap fun
    | token k s => some (k, s)
    | node _ _ => none

/-- The text of the first token of kind `k` among a node's children. -/
def firstToken? (k : Kind) (cs : List Tree) : Option String :=
  ((ownTokens cs).find? (·.1 = k)).map Prod.snd

/-- What a name node spells with its own tokens, trivia left out. -/
def spelledName (cs : List Tree) : String :=
  String.join (((ownTokens cs).filter (!·.1.isTrivia)).map Prod.snd)

/-- The name a tree spells, if it is a name node. -/
def asName? : Tree → Option String
  | node .name cs => some (spelledName cs)
  | _ => none

/-- The name of a variable with the given children, without the `$`. -/
def variableName? (cs : List Tree) : Option String :=
  (firstToken? .varName cs).map (Text.dropLeading '$')

/-- The children of a tree that is a variable. -/
def asVariable? : Tree → Option (List Tree)
  | node .var cs => some cs
  | _ => none

/-- The name that follows a keyword directly, trivia left out. -/
def nameAfter? (keyword : Kind) (cs : List Tree) : Option String :=
  match (cs.filter (!·.kind.isTrivia)).dropWhile (·.kind ≠ keyword) with
  | _ :: follower :: _ => follower.asName?
  | _ => none

/-- The name a node of kind `k` with the given children carries. -/
def nameOf? (k : Kind) (cs : List Tree) : Option String :=
  match k with
  | .var => variableName? cs
  | .propertyDecl => (cs.findSome? asVariable?).bind variableName?
  | .name => some (spelledName cs)
  | .classDecl => nameAfter? .kwClass cs
  | .interfaceDecl | .traitDecl | .functionDecl | .methodDecl | .funcCall | .constFetch =>
    cs.findSome? asName?
  -- a static call has the class's name as well, before its own
  | .methodCall | .staticCall | .propertyFetch => (cs.filterMap asName?).getLast?
  | _ => none

/-- The name the tree carries; tokens carry none. -/
def name? : Tree → Option String
  | token _ _ => none
  | node k cs => nameOf? k cs

end Tree

/-- Whether the names of nodes of this kind have a case. -/
def Kind.hasExactNames : Kind → Bool
  | var | propertyFetch | propertyDecl => true
  | _ => false

namespace Tree

/-- Whether the tree has the given name. -/
def answersTo (t : Tree) (name : String) : Bool :=
  match t.name? with
  | none => false
  | some actual =>
    if t.kind.hasExactNames then actual == name else decide (Text.SameName actual name)

/-- What has exact names answers to one name at most. -/
theorem answersTo_exact {t : Tree} (h : t.kind.hasExactNames = true) (name : String) :
    t.answersTo name = true ↔ t.name? = some name := by
  unfold answersTo
  cases t.name? <;> simp [h]

/-- Everything else answers to every spelling of its name. -/
theorem answersTo_of_sameName {t : Tree} {actual name : String}
    (h : t.kind.hasExactNames = false) (hname : t.name? = some actual)
    (hsame : Text.SameName actual name) : t.answersTo name = true := by
  simp [answersTo, hname, h, hsame]

end Tree

end Syntax

end TypeScribe

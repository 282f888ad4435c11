/-!
# Inferred types

The types an inference of the whole program hands over: `Ty`, a tree over
scalars, classes and a few special types, built with arrays, iterables,
unions and intersections. `Ty.kind` forgets all but the outermost form.

A class is mentioned by a `ClassRef`, which may remember how the source
wrote the name beside the class it means: its `spelling` is the one, its
`identity` the other.
-/

namespace TypeScribe

/-- The scalar types. -/
inductive Scalar
  | int
  | float
  | string
  | bool
deriving DecidableEq, Repr

namespace Scalar

/-- The short name, which doc comments and hints share. -/
def name : Scalar → String
  | int => "int"
  | float => "float"
  | string => "string"
  | bool => "bool"

end Scalar

/-- A mention of a class. -/
inductive ClassRef
  /-- By a plain name, which may or may not be declared. -/
  | named (name : String)
  /-- By a name to be written from the namespace root. -/
  | fullyQualified (name : String)
  /-- By the alias of an import. -/
  | aliased (other full : String)
  /-- By the last part of an imported name. -/
  | shortened (short full : String)
  /-- The enclosing class, written `self`. -/
  | selfRef (name : String)
deriving DecidableEq, Repr

namespace ClassRef

/-- The name as it stands at the place of use. -/
def spelling : ClassRef → String
  | named name | fullyQualified name | selfRef name => name
  | aliased other _ => other
  | shortened short _ => short

/-- The name of the class that is meant. -/
def identity : ClassRef → String
  | named name | fullyQualified name | selfRef name => name
  | aliased _ full | shortened _ full => full

/-- Whether the enclosing class is meant as such. -/
def isSelf : ClassRef → Bool
  | selfRef _ => true
  | _ => false

end ClassRef

/-- An inferred type. -/
inductive Ty
  | scalar (s : Scalar)
  | array (item : Ty)
  | iterable (item : Ty)
  /-- One of several; a proper union has two members or more. -/
  | union (members : List Ty)
  /-- All of several. -/
  | intersection (members : List Ty)
  | object (ref : ClassRef)
  /-- An object of any class. -/
  | anyObject
  /-- The class of the receiver, below the given class. -/
  | staticRef (cls : String)
  | closure
  | callable
  | void
  | never
  | null
  | mixed
  | resource
deriving Repr

/-- The outermost form of a type. -/
inductive TyKind
  | scalar
  | array
  | iterable
  | union
  | intersection
  | object
  | anyObject
  | staticRef
  | closure
  | callable
  | void
  | never
  | null
  | mixed
  | resource
deriving DecidableEq, Repr

namespace TyKind

/-- All forms. -/
def all : List TyKind :=
  [scalar, array, iterable, union, intersection, object, anyObject, staticRef, closure, callable,
    void, never, null, mixed, resource]

/-- The form's name in messages. -/
def name : TyKind → String
  | scalar => "scalar"
  | array => "array"
  | iterable => "iterable"
  | union => "union"
  | intersection => "intersection"
  | object => "object"
  | anyObject => "object-without-class"
  | staticRef => "static"
  | closure => "closure"
  | callable => "callable"
  | void => "void"
  | never => "never"
  | null => "null"
  | mixed => "mixed"
  | resource => "resource"

/-- The form of a given name. -/
def ofName? (name : String) : Option TyKind :=
  all.find? (·.name = name)

/-- Names and forms determine each other. -/
theorem ofName?_name (k : TyKind) : ofName? k.name = some k := by
  cases k <;> decide

end TyKind

namespace Ty

instance : Inhabited Ty := ⟨mixed⟩

/-- The outermost form. -/
def kind : Ty → TyKind
  | scalar _ => .scalar
  | array _ => .array
  | iterable _ => .iterable
  | union _ => .union
  | intersection _ => .intersection
  | object _ => .object
  | anyObject => .anyObject
  | staticRef _ => .staticRef
  | closure => .closure
  | callable => .callable
  | void => .void
  | never => .never
  | null => .null
  | mixed => .mixed
  | resource => .resource

/-- The members of a union or an intersection. -/
def members? : Ty → Option (List Ty)
  | union ms | intersection ms => some ms
  | _ => none

/-- The item type of an array or an iterable. -/
def item? : Ty → Option Ty
  | array t | iterable t => some t
  | _ => none

/-- The class mentioned by an object type. -/
def classRef? : Ty → Option ClassRef
  | object ref => some ref
  | _ => none

/-- Whether the type is `null`. -/
def isNull : Ty → Bool
  | null => true
  | _ => false

/-- Whether the type is a union, proper or not. -/
def isUnion : Ty → Bool
  | union _ => true
  | _ => false

end Ty

end TypeScribe

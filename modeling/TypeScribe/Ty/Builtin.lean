import TypeScribe.Text.Fold
import TypeScribe.Ty.Basic
/-!
# Names of built-in types

What a bare name means in a hint. Built-in names are read without
regard to ASCII case, and the scalars also under their long names;
any other name is a class's.
-/

namespace TypeScribe

/-- The scalar of a name, short or long. -/
def Scalar.ofName? (name : String) : Option Scalar :=
  match Text.lower name with
  | "int" | "integer" => some .int
  | "float" | "double" => some .float
  | "string" => some .string
  | "bool" | "boolean" => some .bool
  | _ => none

namespace Ty

/-- The built-in type of a name, or the class of that name. -/
def ofName (name : String) : Ty :=
  match Scalar.ofName? name with
  | some s => scalar s
  | none =>
    match Text.lower name with
    | "array" => array mixed
    | "iterable" => iterable mixed
    | "callable" => callable
    | "object" => anyObject
    | "void" => void
    | "mixed" => mixed
    | "null" => null
    | "self" => object (.selfRef "self")
    | "static" => staticRef "static"
    | _ => object (.named name)

end Ty

end TypeScribe

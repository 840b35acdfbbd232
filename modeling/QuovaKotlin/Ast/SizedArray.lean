import QuovaKotlin.Ast.Basic

/-!
# Arrays

`new T[a][b]` becomes nested array constructors, and `new T[][]{...}` an array of elements whose
type has one dimension less. A primitive array is a type of its own; an array of another type that
is given by its size holds nulls at first.
-/

set_option autoImplicit false

namespace QuovaKotlin.Ast

/-- What `new` is followed by. -/
inductive ElementType
  | primitive (kind : PrimitiveKind)
  | user (type : UserType)

namespace ElementType

def type : ElementType → TypeRef
  | primitive kind => .primitive kind false
  | user type => .plain (.user type)

/-- The innermost level of a sized array: its type and its constructor call. -/
def innermost (element : ElementType) (size : Expression) : TypeRef × Expression :=
  match element with
  | primitive kind =>
    let type := TypeRef.primitive kind true
    (type, .construct type [.positional size])
  | user type =>
    let type := TypeRef.arrayOf ⟨.user type, 0, true⟩
    (type, .construct type [.positional size, .positional (.thunk (.literal .null))])

/-- A sized array, outermost size first: its type and the constructor call that makes it. -/
def sized? (element : ElementType) : List Expression → Option (TypeRef × Expression)
  | [] => none
  | [size] => some (element.innermost size)
  | size :: sizes => do
    let (inner, array) ← element.sized? sizes
    let type := TypeRef.arrayOf inner
    return (type, .construct type [.positional size, .positional (.thunk array)])

/-- The type of an element of an array with the given number of dimensions. -/
def ofDimensions (element : ElementType) (dimensions : Nat) : TypeRef :=
  match element with
  | primitive kind =>
    if dimensions ≤ 1 then .primitive kind false
    else { TypeRef.primitive kind true with dimensions := dimensions - 2 }
  | user type => ⟨.user type, dimensions - 1, false⟩

end ElementType

end QuovaKotlin.Ast

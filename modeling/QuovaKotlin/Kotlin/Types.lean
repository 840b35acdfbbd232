import QuovaKotlin.Ast.Basic
import QuovaKotlin.Text.Join

/-!
# Kotlin text of types

Array dimensions become nested `Array<...>` types; a primitive array has its own type. A function
type that can be null is put in parentheses.
-/

set_option autoImplicit false

namespace QuovaKotlin.Ast

open Text

/-- The Kotlin name of a primitive. `byte` is unsigned and `sbyte` is signed. -/
def PrimitiveKind.kotlin : PrimitiveKind → String
  | byte => "UByte"
  | sbyte => "Byte"
  | short => "Short"
  | ushort => "UShort"
  | int => "Int"
  | uint => "UInt"
  | long => "Long"
  | ulong => "ULong"
  | float => "Float"
  | double => "Double"
  | char => "Char"
  | boolean => "Boolean"

/-- The Kotlin function that makes an array of a primitive. -/
def PrimitiveKind.arrayFactory : PrimitiveKind → String
  | byte => "ubyteArrayOf"
  | sbyte => "byteArrayOf"
  | short => "shortArrayOf"
  | ushort => "ushortArrayOf"
  | int => "intArrayOf"
  | uint => "uintArrayOf"
  | long => "longArrayOf"
  | ulong => "ulongArrayOf"
  | float => "floatArrayOf"
  | double => "doubleArrayOf"
  | char => "charArrayOf"
  | boolean => "booleanArrayOf"

def PrimitiveType.kotlin (type : PrimitiveType) : String :=
  type.kind.kotlin ++ onlyIf type.array "Array"

def Variance.kotlin : Variance → String
  | contravariant => "in"
  | covariant => "out"

def TypeCore.isFunction : TypeCore → Bool
  | .function .. => true
  | _ => false

/-- `<a, b>`, or nothing for an empty list. -/
def angleList (texts : List String) : String :=
  if texts.isEmpty then "" else "<" ++ commas texts ++ ">"

mutual

def TypeRef.kotlin : TypeRef → String
  | ⟨core, dimensions, nullable⟩ =>
    let text := core.kotlin
    let text := if core.isFunction && nullable && dimensions == 0 then "(" ++ text ++ ")" else text
    copies dimensions "Array<" ++ text ++ copies dimensions ">" ++ onlyIf nullable "?"

def TypeCore.kotlin : TypeCore → String
  | .primitive type => type.kotlin
  | .user type => type.kotlin
  | .function suspend result parameters =>
    onlyIf suspend "suspend " ++ "(" ++ commas (TypeRef.kotlinEach parameters) ++ ") -> " ++
      result.kotlin

def UserType.kotlin : UserType → String
  | ⟨name, arguments⟩ => name ++ angleList (TypeArgument.kotlinEach arguments)

def TypeArgument.kotlin : TypeArgument → String
  | .wildcard => "*"
  | .concrete none type => type.kotlin
  | .concrete (some variance) type => variance.kotlin ++ " " ++ type.kotlin

def TypeRef.kotlinEach : List TypeRef → List String
  | [] => []
  | type :: types => type.kotlin :: TypeRef.kotlinEach types

def TypeArgument.kotlinEach : List TypeArgument → List String
  | [] => []
  | argument :: arguments => argument.kotlin :: TypeArgument.kotlinEach arguments

end

def ReturnType.kotlin : ReturnType → String
  | type t => t.kotlin
  | void => "Unit"

/-- `: T`, or nothing when the type is left out. -/
def typeMark : Option TypeRef → String
  | none => ""
  | some type => ": " ++ type.kotlin

def LoopVariable.kotlin (item : LoopVariable) : String :=
  item.name ++ typeMark item.type

/-- ` : T` for the first constraint of a type parameter. -/
def firstBound : List TypeRef → String
  | [] => ""
  | bound :: _ => " : " ++ bound.kotlin

/-- `T : B` for each constraint behind the first of every parameter. -/
def laterBounds (parameters : List (String × List TypeRef)) : List String :=
  parameters.flatMap fun (name, constraints) =>
    (constraints.drop 1).map fun bound => name ++ " : " ++ bound.kotlin

/-- ` where T : B, U : C`, or nothing. -/
def whereClause (parameters : List (String × List TypeRef)) : String :=
  let bounds := laterBounds parameters
  if bounds.isEmpty then "" else " where " ++ commas bounds

end QuovaKotlin.Ast

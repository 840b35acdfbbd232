import QuovaKotlin.Ast.Modifier

/-!
# Types

A use of a type is a core (primitive, named or function type) with array dimensions around it and
an optional null mark. The first dimension of a primitive is part of its core: `int[][]` is the
primitive array `int[]` with one more dimension.
-/

set_option autoImplicit false

namespace QuovaKotlin.Ast

inductive PrimitiveKind
  | byte
  | sbyte
  | short
  | ushort
  | int
  | uint
  | long
  | ulong
  | float
  | double
  | char
  | boolean
  deriving DecidableEq, Repr

def PrimitiveKind.ofKeyword? : String → Option PrimitiveKind
  | "byte" => some .byte
  | "sbyte" => some .sbyte
  | "short" => some .short
  | "ushort" => some .ushort
  | "int" => some .int
  | "uint" => some .uint
  | "long" => some .long
  | "ulong" => some .ulong
  | "float" => some .float
  | "double" => some .double
  | "char" => some .char
  | "boolean" => some .boolean
  | _ => none

/-- The name of a primitive in syntax tree dumps. -/
def PrimitiveKind.tag : PrimitiveKind → String
  | byte => "Byte"
  | sbyte => "SByte"
  | short => "Short"
  | ushort => "UShort"
  | int => "Int"
  | uint => "UInt"
  | long => "Long"
  | ulong => "ULong"
  | float => "Float"
  | double => "Double"
  | char => "Char"
  | boolean => "Boolean"

/-- A primitive, or the dedicated array type of one. -/
structure PrimitiveType where
  kind : PrimitiveKind
  array : Bool
  deriving DecidableEq, Repr

mutual

structure TypeRef where
  core : TypeCore
  dimensions : Nat
  nullable : Bool

inductive TypeCore
  | primitive (type : PrimitiveType)
  | user (type : UserType)
  | function (suspend : Bool) (result : TypeRef) (parameters : List TypeRef)

/-- A type by name, with its type arguments. -/
structure UserType where
  name : String
  arguments : List TypeArgument

inductive TypeArgument
  | wildcard
  | concrete (variance : Option Variance) (type : TypeRef)

end

/-- A core without dimensions that cannot be null. -/
def TypeRef.plain (core : TypeCore) : TypeRef :=
  ⟨core, 0, false⟩

def TypeRef.primitive (kind : PrimitiveKind) (array : Bool) : TypeRef :=
  .plain (.primitive ⟨kind, array⟩)

def TypeRef.user (name : String) (arguments : List TypeArgument) : TypeRef :=
  .plain (.user ⟨name, arguments⟩)

/-- `Array<element>` as a named type. -/
def TypeRef.arrayOf (element : TypeRef) : TypeRef :=
  .user "Array" [.concrete none element]

/-- What a function returns: a type, or nothing at all. -/
inductive ReturnType
  | type (type : TypeRef)
  | void

end QuovaKotlin.Ast

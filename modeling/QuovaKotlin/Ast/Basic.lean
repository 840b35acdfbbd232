import QuovaKotlin.Ast.Constant
import QuovaKotlin.Ast.Operator
import QuovaKotlin.Ast.TypeRef

/-!
# Syntax trees

Expressions, statements and declarations contain each other, so they are one mutual family. The
trees carry no places of the source text, and equality is structural.
-/

set_option autoImplicit false

namespace QuovaKotlin.Ast

/-- Literals whose text is kept as written, quotes and suffixes included, and fixed words. -/
inductive Literal
  | string (text : String)
  | multilineString (text : String)
  | integer (text : String)
  | long (text : String)
  | real (text : String)
  | char (text : String)
  | this
  | super (type : Option UserType)
  | boolean (value : Bool)
  | null
  | void

/-- What stands between the visibility and the keyword of a class. -/
structure ClassModifiers where
  inheritance : Option Inheritance
  isSealed : Bool
  isInner : Bool
  deriving DecidableEq, Repr

/-- The mark in front of a type parameter: `reified`, or a variance. -/
inductive TypeParameterMark
  | reified (present : Bool)
  | variance (variance : Option Variance)
  deriving DecidableEq, Repr

inductive DelegationTarget
  | this
  | super
  deriving DecidableEq, Repr

/-- The variable of a loop over a collection. -/
structure LoopVariable where
  type : Option TypeRef
  name : String

mutual

inductive Expression
  | literal (value : Literal)
  | identifier (name : String)
  /-- `new T(a, b)`, and the constructor calls that stand for sized arrays. -/
  | construct (type : TypeRef) (arguments : List Argument)
  /-- `new T[]{a, b}`, with the type of an element. -/
  | arrayOf (element : TypeRef) (elements : List Argument)
  /-- `{a, b}` -/
  | initializer (elements : List Argument)
  /-- `{k: v}` -/
  | dictionary (entries : List DictionaryEntry)
  | lambda (parameters : List LambdaParameter) (body : LambdaBody)
  /-- A choice by `subject`, or by the first true condition when there is none. -/
  | switch (subject : Option Expression) (branches : List Branch) (fallback : Option Statement)
  /-- Parentheses that stand in the source. -/
  | parenthesized (inner : Expression)
  | suffixed (operand : Expression) (operator : PostfixOperator)
  | prefixed (operator : PrefixOperator) (operand : Expression)
  | cast (operand : Expression) (type : TypeRef) (safe : Bool)
  | binary (operator : BinaryOperator) (left right : Expression)
  | ternary (condition consequent alternative : Expression)
  | spread (operand : Expression)
  /-- An assignment that is used as a value. -/
  | assign (target : Expression) (operator : AssignmentOperator) (value : Expression)
  /-- `mapping for (x in source) if (condition)` -/
  | comprehension (mapping : Expression) (item : LoopVariable) (source : Expression)
      (condition : Option Expression)

/-- Postfix operators. A lambda behind a call is already the last of its arguments. -/
inductive PostfixOperator
  | increment
  | decrement
  | notNull
  | invocation (typeArguments : List TypeArgument) (arguments : List Argument)
  | indexing (indices : List Expression)
  | call (kind : CallKind) (target : CallTarget)

structure Argument where
  name : Option String
  value : Expression

structure DictionaryEntry where
  key : Expression
  value : Expression

/-- A parameter without a name is `_`. -/
structure LambdaParameter where
  annotations : List AnnotationUse
  type : Option TypeRef
  name : Option String

inductive LambdaBody
  | expression (value : Expression)
  | block (statements : List Statement) (result : Option Expression)

structure Branch where
  conditions : List Condition
  body : Statement

/-- Without a subject every condition is a plain case. -/
structure Condition where
  kind : ConditionKind
  value : Expression

structure AnnotationUse where
  name : String
  typeArguments : List TypeArgument
  arguments : List AnnotationArgument

inductive AnnotationArgument
  | single (name : Option String) (value : Expression)
  | array (name : Option String) (values : List Expression)

inductive Statement
  | labeled (label : String) (statement : Statement)
  | assignment (target : Expression) (operator : AssignmentOperator) (value : Expression)
  | conditional (condition : Expression) (consequent : Statement) (alternative : Option Statement)
  | forEach (item : LoopVariable) (source : Expression) (body : Statement)
  /-- `for (initial; conditions; updates) body` -/
  | forClassic (initial : List ForVariable) (conditions : List Expression)
      (updates : List Statement) (body : Statement)
  /-- A loop that tests its condition in front of the body, or behind it. -/
  | loop (testsLast : Bool) (condition : Expression) (body : Statement)
  | break (label : Option String)
  | continue (label : Option String)
  | throw (value : Expression)
  | return (label : Option String) (value : Option Expression)
  | block (statements : List Statement)
  | declaration (declaration : Declaration)
  | expression (value : Expression)
  /-- A lone `;` as the body of another statement. -/
  | empty

structure ForVariable where
  type : Option TypeRef
  name : String
  value : Expression

inductive Declaration
  | type (annotations : List AnnotationUse) (visibility : Visibility) (name : String)
      (kind : TypeKind)
  | function (declaration : FunctionDeclaration)
  | property (declaration : PropertyDeclaration)

inductive TypeKind
  /-- A class; parameters are absent when its parentheses are. -/
  | classType (modifiers : ClassModifiers) (typeParameters : List TypeParameter)
      (parameters : Option (List Parameter)) (supertypes : List Supertype) (members : Members)
  | singleton (supertypes : List Supertype) (members : Members)
  | interface (typeParameters : List TypeParameter) (supertypes : List UserType)
      (members : Members)
  | enumClass (typeParameters : List TypeParameter) (parameters : Option (List Parameter))
      (supertypes : List Supertype) (entries : List EnumEntry) (members : Members)
  /-- An enum over a primitive, which becomes a set of constants. -/
  | constants (bitfield : Bool) (type : PrimitiveType) (entries : List (ConstantEntry Expression))
  | record (typeParameters : List TypeParameter) (parameters : List Parameter)
      (supertypes : List Supertype) (members : Members)
  | inlineClass (parameter : Parameter) (supertypes : List Supertype) (members : Members)
  | annotationType (parameters : List Parameter) (members : Members)

structure EnumEntry where
  annotations : List AnnotationUse
  name : String
  arguments : List Argument
  body : Option (List Member)

inductive Supertype
  | bare (type : UserType)
  | initialized (type : UserType) (arguments : List Argument)
  | delegated (type : UserType) (delegate : Expression)

/-- A body in two parts, each in source order. -/
structure Members where
  instances : List Member
  statics : List Member

inductive Member
  | declaration (declaration : Declaration)
  | constructor (annotations : List AnnotationUse) (visibility : Visibility)
      (parameters : List Parameter) (delegations : List Delegation) (body : FunctionBody)
  | initializer (isStatic : Bool) (body : List Statement)

structure Delegation where
  target : DelegationTarget
  arguments : List Argument

/-- A return type is absent when it is left to the body. -/
structure FunctionDeclaration where
  annotations : List AnnotationUse
  visibility : Visibility
  inheritance : Option Inheritance
  modifiers : List FunctionModifier
  typeParameters : List TypeParameter
  returnType : Option ReturnType
  name : String
  parameters : List Parameter
  throws : List UserType
  body : FunctionBody

/-- A constructor has a block or no body. -/
inductive FunctionBody
  | absent
  | block (statements : List Statement)
  | expression (value : Expression)

/-- Several properties of one type; the type is absent for `var`. -/
structure PropertyDeclaration where
  annotations : List AnnotationUse
  visibility : Visibility
  inheritance : Option Inheritance
  modifiers : List PropertyModifier
  type : Option TypeRef
  properties : List Property

structure Property where
  name : String
  value : Option Expression
  delegate : Option Expression
  getter : Option Accessor
  setter : Option Accessor

/-- A getter or a setter; only a setter can name its parameter. -/
structure Accessor where
  annotations : List AnnotationUse
  parameter : Option String
  body : FunctionBody

structure Parameter where
  annotations : List AnnotationUse
  isMutable : Bool
  type : TypeRef
  isVararg : Bool
  name : String
  fallback : Option Expression

structure TypeParameter where
  annotations : List AnnotationUse
  mark : TypeParameterMark
  name : String
  constraints : List TypeRef

end

structure Import where
  path : String
  wildcard : Bool
  names : List String
  newName : Option String
  deriving DecidableEq, Repr

/-- `import quova.*` -/
def Import.standardLibrary : Import :=
  ⟨"quova", true, [], none⟩

/-- `import kotlin.Int as Integer`, which leaves the name `Int` to the source language. -/
def Import.integerAlias : Import :=
  ⟨"kotlin.Int", false, [], some "Integer"⟩

structure SourceFile where
  shebang : Option String
  package : Option String
  imports : List Import
  declarations : List Declaration

def Argument.positional (value : Expression) : Argument :=
  ⟨none, value⟩

def Expression.integer (text : String) : Expression :=
  .literal (.integer text)

/-- A lambda without parameters that yields `value`. -/
def Expression.thunk (value : Expression) : Expression :=
  .lambda [] (.expression value)

/-- A block as the body of a lambda; all of it is run, and nothing is its result. -/
def LambdaBody.ofBlock (statements : List Statement) : LambdaBody :=
  .block statements none

/-- Counting with expressions: `n`, `a + n` and `1 << a`. -/
def Expression.counting : Counting Expression where
  number n := .integer (toString n)
  add a n := .binary (.sum .plus) a (.integer (toString n))
  bit a := .binary (.shift .left) (.integer "1") a

/-- The value of every constant of an enum over a primitive, in order. -/
def constantValues (bitfield : Bool) (entries : List (ConstantEntry Expression)) :
    List Expression :=
  Expression.counting.values bitfield entries

def Declaration.isStatic : Declaration → Bool
  | .function f => f.modifiers.contains .static
  | .property p => p.modifiers.contains .static
  | .type .. => false

def Member.isStatic : Member → Bool
  | .declaration d => d.isStatic
  | .initializer isStatic _ => isStatic
  | .constructor .. => false

def Members.isEmpty (members : Members) : Bool :=
  members.instances.isEmpty && members.statics.isEmpty

/-- Splits a body by the static mark of each member and keeps the order. -/
def Members.partition (all : List Member) : Members :=
  ⟨all.filter (! ·.isStatic), all.filter (·.isStatic)⟩

/-- Every member of a singleton is static. -/
def Members.singleton (all : List Member) : Members :=
  ⟨[], all⟩

end QuovaKotlin.Ast

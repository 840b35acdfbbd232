import QuovaKotlin.Ast.Basic
import QuovaKotlin.Reading.Types

/-!
# Readers

Expressions, statements and declarations contain each other. A `Readers` holds the readers for the
parts of a tree, and every reader of this folder is an ordinary function of it. The knot is tied
once, in `QuovaKotlin.Reading.File`.
-/

set_option autoImplicit false

namespace QuovaKotlin.Reading

open Ast

/-- Where a declaration stands, which decides its visibility when no keyword does. -/
inductive Scope
  /-- The top level and the bodies of classes. -/
  | member
  | interface
  /-- A statement. -/
  | block
  deriving DecidableEq, Repr

def Scope.visibility : Scope → Visibility
  | member => .internalAccess
  | interface => .publicAccess
  | block => .localAccess

/-- The readers for the parts of a tree. -/
structure Readers where
  expression : Node → Read Expression
  statement : Node → Read Statement
  declaration : Scope → Node → Read Declaration
  /-- The conditions of a switch branch, which nest to the right. -/
  conditions : Node → Read (List Condition)

/-- No reader succeeds. -/
def Readers.none : Readers where
  expression node := missing node "expression"
  statement node := missing node "statement"
  declaration _ node := missing node "declaration"
  conditions node := missing node "condition"

def readVisibility (scope : Scope) (node : Node) : Read Visibility := do
  return (← atMostOne node .visibilityModifier (meaning Visibility.ofKeyword?)).getD
    scope.visibility

def readInheritance (node : Node) : Read (Option Inheritance) :=
  atMostOne node .inheritanceModifier (meaning Inheritance.ofKeyword?)

def readArgument (parts : Readers) (node : Node) : Read Argument := do
  let value ← one node .expression parts.expression
  return ⟨textOf? node .simpleIdentifier, value⟩

def readArguments (parts : Readers) (node : Node) : Read (List Argument) :=
  each node .valueArgument (readArgument parts)

def readAnnotationArgument (parts : Readers) (node : Node) : Read AnnotationArgument := do
  let name := textOf? node .simpleIdentifier
  match node.child? .annotationArray with
  | some array => .array name <$> each array .expression parts.expression
  | none => .single name <$> one node .expression parts.expression

def readAnnotationUse (parts : Readers) (node : Node) : Read AnnotationUse := do
  let typeArguments ← listUnder node .typeArguments readTypeArguments
  let arguments ← each node .annotationArgument (readAnnotationArgument parts)
  let name ← textOf node .identifier
  return ⟨name, typeArguments, arguments⟩

def readAnnotations (parts : Readers) (node : Node) : Read (List AnnotationUse) :=
  each node .annotationUse (readAnnotationUse parts)

def readParameter (parts : Readers) (node : Node) : Read Parameter := do
  let fallback ← atMostOne node .expression parts.expression
  let annotations ← readAnnotations parts node
  let type ← one node .typeUse readType
  let name ← nameOf node
  return ⟨annotations, node.has .kwVar, type, node.has .ellipsis, name, fallback⟩

def readParameters (parts : Readers) (node : Node) : Read (List Parameter) :=
  each node .valueParameter (readParameter parts)

def readTypeParameter (parts : Readers) (mark : Node → Read TypeParameterMark) (node : Node) :
    Read TypeParameter := do
  let mark ← mark node
  let annotations ← readAnnotations parts node
  let name ← nameOf node
  let constraints ← each node .typeUse readType
  return ⟨annotations, mark, name, constraints⟩

def readReifiedMark (node : Node) : Read TypeParameterMark :=
  .ok (.reified (node.has .kwReified))

def readVarianceMark (node : Node) : Read TypeParameterMark :=
  .variance <$> atMostOne node .varianceModifier (meaning Variance.ofKeyword?)

/-- The type parameters of a function or a record. -/
def readTypeParameters (parts : Readers) (node : Node) : Read (List TypeParameter) :=
  listUnder node .typeParameters fun list =>
    each list .typeParameter (readTypeParameter parts readReifiedMark)

/-- The type parameters of a class, an interface or an enum class. -/
def readVariantTypeParameters (parts : Readers) (node : Node) : Read (List TypeParameter) :=
  listUnder node .variantTypeParameters fun list =>
    each list .variantTypeParameter (readTypeParameter parts readVarianceMark)

def readBlock (parts : Readers) (node : Node) : Read (List Statement) :=
  each node .statement parts.statement

/-- A block, a statement or a lone `;` as the body of something else. -/
def readBody (parts : Readers) (node : Node) : Read Statement := do
  let body ← first node
  match body.rule with
  | .block => .block <$> readBlock parts body
  | .statement => parts.statement body
  | .emptyStatement => return .empty
  | _ => unexpected body

/-- `[T] x in source` -/
def readLoopHeader (parts : Readers) (node : Node) : Read (LoopVariable × Expression) := do
  let type ← readDeclaredType node
  let name ← nameOf node
  let source ← one node .expression parts.expression
  return (⟨type, name⟩, source)

end QuovaKotlin.Reading

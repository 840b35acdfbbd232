import QuovaKotlin.Choice
import QuovaKotlin.Reading.Readers

/-!
# Reading declarations

The members of every body are split into instance and static ones as soon as they are read.
-/

set_option autoImplicit false

namespace QuovaKotlin.Reading

open Source (Rule)
open Ast

def readFunctionBody (parts : Readers) (node : Node) : Read FunctionBody := do
  let block ← atMostOne node .block (readBlock parts)
  let value ← atMostOne node .expression parts.expression
  match firstPresent block value with
  | some (.inl statements) => return .block statements
  | some (.inr value) => return .expression value
  | none => missing node "block or expression"

/-- The body under a node, which may be left out. -/
def readBodyUnder (parts : Readers) (node : Node) : Read FunctionBody := do
  return (← atMostOne node .functionBody (readFunctionBody parts)).getD .absent

def readFunction (parts : Readers) (scope : Scope) (node : Node) : Read FunctionDeclaration := do
  let modifiers ← each node .functionModifierKeyword (meaning FunctionModifier.ofKeyword?)
  let returnType ← atMostOne node .typeOrVoid readTypeOrVoid
  let throws ← listUnder node .throwsClause fun clause => each clause .userType readUserType
  let body ← readBodyUnder parts node
  let annotations ← readAnnotations parts node
  let visibility ← readVisibility scope node
  let inheritance ← readInheritance node
  let typeParameters ← readTypeParameters parts node
  let name ← nameOf node
  let parameters ← one node .valueParameters (readParameters parts)
  return ⟨annotations, visibility, inheritance, modifiers, typeParameters, returnType, name,
    parameters, throws, body⟩

def readAccessor (parts : Readers) (node : Node) : Read Accessor := do
  let annotations ← readAnnotations parts node
  let body ← readBodyUnder parts node
  return ⟨annotations, textOf? node .simpleIdentifier, body⟩

def readProperty (parts : Readers) (node : Node) : Read Property := do
  let value ← atMostOne node .propertyValue fun value => one value .expression parts.expression
  let delegate ← atMostOne node .propertyDelegate fun delegate =>
    one delegate .expression parts.expression
  let getter ← atMostOne node .getter (readAccessor parts)
  let setter ← atMostOne node .setter (readAccessor parts)
  let name ← nameOf node
  return ⟨name, value, delegate, getter, setter⟩

def readProperties (parts : Readers) (scope : Scope) (node : Node) :
    Read PropertyDeclaration := do
  let modifiers ← each node .propertyModifierKeyword (meaning PropertyModifier.ofKeyword?)
  let properties ← each node .property (readProperty parts)
  let annotations ← readAnnotations parts node
  let visibility ← readVisibility scope node
  let inheritance ← readInheritance node
  let type ← one node .typeOrVar readTypeOrVar
  return ⟨annotations, visibility, inheritance, modifiers, type, properties⟩

def readDelegation (parts : Readers) (node : Node) : Read Delegation := do
  let arguments ← one node .valueArguments (readArguments parts)
  return ⟨if node.has .thisLiteral then .this else .super, arguments⟩

def readConstructor (parts : Readers) (node : Node) : Read Member := do
  let delegations ← each node .constructorDelegation (readDelegation parts)
  let body ← atMostOne node .block (readBlock parts)
  let annotations ← readAnnotations parts node
  let visibility ← readVisibility .member node
  let parameters ← one node .valueParameters (readParameters parts)
  return .constructor annotations visibility parameters delegations
    (match body with
      | some statements => .block statements
      | none => .absent)

def readInitBlock (parts : Readers) (node : Node) : Read Member := do
  let body ← one node .block (readBlock parts)
  return .initializer (node.has .kwStatic) body

/-- A node under a body, if it is a member. -/
def readMember? (parts : Readers) (node : Node) : Option (Read Member) :=
  match node.rule with
  | .constructorDeclaration => some (readConstructor parts node)
  | .initBlock => some (readInitBlock parts node)
  | .declaration => some (.declaration <$> parts.declaration .member node)
  | _ => none

def readMembers (parts : Readers) (node : Node) : Read (List Member) :=
  (node.children.filterMap (readMember? parts)).mapM id

/-- The members of the body made by `rule`, which may be left out. -/
def readClassBody (parts : Readers) (rule : Rule) (node : Node) : Read Members :=
  Members.partition <$> listUnder node rule (readMembers parts)

def readSupertype (parts : Readers) (node : Node) : Read Supertype := do
  let arguments ← atMostOne node .valueArguments (readArguments parts)
  let delegate ← atMostOne node .expression parts.expression
  let type ← one node .userType readUserType
  match firstPresentOr none (arguments.map some) delegate with
  | .inl none => return .bare type
  | .inl (some arguments) => return .initialized type arguments
  | .inr delegate => return .delegated type delegate

def readSupertypes (parts : Readers) (node : Node) : Read (List Supertype) :=
  each node .supertype (readSupertype parts)

def readClass (parts : Readers) (node : Node) : Read TypeKind := do
  let parameters ← atMostOne node .valueParameters (readParameters parts)
  let inheritance ← readInheritance node
  let typeParameters ← readVariantTypeParameters parts node
  let supertypes ← readSupertypes parts node
  let members ← readClassBody parts .classBody node
  return .classType ⟨inheritance, node.has .kwSealed, node.has .kwInner⟩ typeParameters parameters
    supertypes members

def readSingletonMember (parts : Readers) (node : Node) : Read Member :=
  match node.rule with
  | .initBlock => readInitBlock parts node
  | .declaration => .declaration <$> parts.declaration .member node
  | _ => unexpected node

def readSingleton (parts : Readers) (node : Node) : Read TypeKind := do
  let body ← required node .singletonBody
  let members ← body.children.mapM (readSingletonMember parts)
  let supertypes ← readSupertypes parts node
  return .singleton supertypes (.singleton members)

def readInterface (parts : Readers) (node : Node) : Read TypeKind := do
  let members ← listUnder node .interfaceBody fun body =>
    each body .declaration (parts.declaration .interface)
  let typeParameters ← readVariantTypeParameters parts node
  let supertypes ← each node .userType readUserType
  return .interface typeParameters supertypes (.partition (members.map .declaration))

def readEnumEntry (parts : Readers) (node : Node) : Read EnumEntry := do
  let arguments ← listUnder node .valueArguments (readArguments parts)
  let body ← atMostOne node .classBody (readMembers parts)
  let annotations ← readAnnotations parts node
  let name ← nameOf node
  return ⟨annotations, name, arguments, body⟩

def readEnumClass (parts : Readers) (node : Node) : Read TypeKind := do
  let body ← required node .enumClassBody
  let entries ← each body .enumEntry (readEnumEntry parts)
  let parameters ← atMostOne node .valueParameters (readParameters parts)
  let typeParameters ← readVariantTypeParameters parts node
  let supertypes ← readSupertypes parts node
  let members ← readClassBody parts .enumClassBody node
  return .enumClass typeParameters parameters supertypes entries members

def readConstant (parts : Readers) (node : Node) : Read (ConstantEntry Expression) :=
  match node.child? .primitiveEnumValue with
  | none => .implicit <$> nameOf node
  | some mark => do
    let value ← one mark .expression parts.expression
    let name ← nameOf node
    return if mark.has .enumShift then .shifted name value else .assigned name value

def readConstants (parts : Readers) (node : Node) : Read TypeKind := do
  let entries ← each node .primitiveEnumEntry (readConstant parts)
  let kind ← one node .primitiveTypeNoArray readPrimitiveKind
  return .constants (node.has .kwBitfield) ⟨kind, false⟩ entries

def readRecord (parts : Readers) (node : Node) : Read TypeKind := do
  let typeParameters ← readTypeParameters parts node
  let parameters ← one node .valueParameters (readParameters parts)
  let supertypes ← readSupertypes parts node
  let members ← readClassBody parts .classBody node
  return .record typeParameters parameters supertypes members

def readInlineClass (parts : Readers) (node : Node) : Read TypeKind := do
  let parameter ← one node .valueParameter (readParameter parts)
  let supertypes ← readSupertypes parts node
  let members ← readClassBody parts .classBody node
  return .inlineClass parameter supertypes members

/-- A parameter of an annotation type is declared like a method without parameters. -/
def readAnnotationParameter (parts : Readers) (node : Node) : Read Parameter := do
  let fallback ← atMostOne node .expression parts.expression
  let annotations ← readAnnotations parts node
  let type ← one node .typeUse readType
  let name ← nameOf node
  return ⟨annotations, false, type, false, name, fallback⟩

def readAnnotationType (parts : Readers) (node : Node) : Read TypeKind := do
  let parameters ← listUnder node .annotationBody fun body =>
    each body .annotationParameter (readAnnotationParameter parts)
  let members ← readClassBody parts .annotationBody node
  return .annotationType parameters members

def readTypeKind (parts : Readers) (node : Node) : Read TypeKind :=
  match node.rule with
  | .classDeclaration => readClass parts node
  | .singletonDeclaration => readSingleton parts node
  | .interfaceDeclaration => readInterface parts node
  | .enumClassDeclaration => readEnumClass parts node
  | .primitiveEnumDeclaration => readConstants parts node
  | .recordDeclaration => readRecord parts node
  | .inlineClassDeclaration => readInlineClass parts node
  | .annotationDeclaration => readAnnotationType parts node
  | _ => unexpected node

/-- Whether a node stands in front of the declaration proper. -/
def isTypeModifier (node : Node) : Bool :=
  node.rule = .annotationUse || node.rule = .visibilityModifier

def readTypeDeclaration (parts : Readers) (scope : Scope) (node : Node) : Read Declaration :=
  match node.children.find? (! isTypeModifier ·) with
  | none => missing node "type declaration body"
  | some body => do
    let kind ← readTypeKind parts body
    let name ← nameOf body
    let annotations ← readAnnotations parts node
    let visibility ← readVisibility scope node
    return .type annotations visibility name kind

def readDeclaration (parts : Readers) (scope : Scope) (node : Node) : Read Declaration := do
  let declaration ← first node
  match declaration.rule with
  | .typeDeclaration => readTypeDeclaration parts scope declaration
  | .functionDeclaration => .function <$> readFunction parts scope declaration
  | .propertyDeclaration => .property <$> readProperties parts scope declaration
  | _ => unexpected declaration

end QuovaKotlin.Reading

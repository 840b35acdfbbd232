import QuovaKotlin.Ast.TypeRef
import QuovaKotlin.Reading.Basic
import QuovaKotlin.Source.Rule

/-!
# Reading types

Types nest through function types and type arguments. Each reader takes the reader of the types
inside it; `readTypeIn` ties the knot with fuel, and the height of a tree is enough of it.
-/

set_option autoImplicit false

namespace QuovaKotlin.Reading

open Source (Rule)
open Ast

instance : Labeled Rule := ⟨Rule.label⟩

/-- A tree of the source grammar. -/
abbrev Node := Peg.ParseTree Rule

/-- The identifier directly under a node. -/
def nameOf (node : Node) : Read String :=
  textOf node .simpleIdentifier

abbrev TypeReader := Node → Read TypeRef

def readPrimitiveKind (node : Node) : Read PrimitiveKind :=
  meaning PrimitiveKind.ofKeyword? node

def readPrimitiveType (node : Node) : Read PrimitiveType := do
  let kind ← one node .primitiveTypeNoArray readPrimitiveKind
  return ⟨kind, node.has .emptyDimension⟩

def readTypeArgument (inner : TypeReader) (node : Node) : Read TypeArgument :=
  if node.has .wildcard then .ok .wildcard
  else do
    let variance ← atMostOne node .varianceModifier (meaning Variance.ofKeyword?)
    let type ← one node .typeUse inner
    return .concrete variance type

def readTypeArgumentsWith (inner : TypeReader) (node : Node) : Read (List TypeArgument) :=
  each node .typeArgument (readTypeArgument inner)

def readUserTypeWith (inner : TypeReader) (node : Node) : Read UserType := do
  let arguments ← listUnder node .typeArguments (readTypeArgumentsWith inner)
  let name ← textOf node .identifier
  return ⟨name, arguments⟩

def readFunctionType (inner : TypeReader) (node : Node) : Read TypeCore := do
  let parameters ← one node .functionTypeParameters fun list => each list .typeUse inner
  let result ← one node .typeUse inner
  return .function (node.has .kwSuspend) result parameters

def readTypeCore (inner : TypeReader) (node : Node) : Read TypeCore :=
  match node.rule with
  | .functionType => readFunctionType inner node
  | .primitiveType => .primitive <$> readPrimitiveType node
  | .userType => .user <$> readUserTypeWith inner node
  | _ => unexpected node

def readTypeWith (inner : TypeReader) (node : Node) : Read TypeRef := do
  let core ← readTypeCore inner (← first node)
  return ⟨core, (node.childrenOf .emptyDimension).length, node.has .nullable⟩

/-- The type reader for trees of the given height. -/
def readTypeIn : Nat → TypeReader
  | 0, node => missing node "type"
  | fuel + 1, node => readTypeWith (readTypeIn fuel) node

def readType (node : Node) : Read TypeRef :=
  readTypeIn node.height node

def readUserType (node : Node) : Read UserType :=
  readUserTypeWith readType node

def readTypeArguments (node : Node) : Read (List TypeArgument) :=
  readTypeArgumentsWith readType node

/-- The type of `T` or `var`; the latter leaves it open. -/
def readTypeOrVar (node : Node) : Read (Option TypeRef) :=
  atMostOne node .typeUse readType

def readTypeOrVoid (node : Node) : Read ReturnType := do
  match ← atMostOne node .typeUse readType with
  | some type => return .type type
  | none => return .void

/-- The type in front of a variable, if it is given and is not `var`. -/
def readDeclaredType (node : Node) : Read (Option TypeRef) := do
  return (← atMostOne node .typeOrVar readTypeOrVar).join

end QuovaKotlin.Reading

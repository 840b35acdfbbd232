import QuovaKotlin.Ast.SizedArray
import QuovaKotlin.Reading.Operators
import QuovaKotlin.Reading.Readers

/-!
# Reading expressions

The parts of an operator expression are grouped by precedence first and read then, from left to
right, each operator behind its operands.
-/

set_option autoImplicit false

namespace QuovaKotlin.Reading

open Ast
open Precedence (Grouping)

/-- A parameter named `_` has no name. -/
def readLambdaParameter (parts : Readers) (node : Node) : Read LambdaParameter := do
  let type ← readDeclaredType node
  let name ← nameOf node
  let annotations ← readAnnotations parts node
  return ⟨annotations, type, if name = "_" then none else some name⟩

def readLambdaBody (parts : Readers) (node : Node) : Read LambdaBody := do
  let result ← atMostOne node .expression parts.expression
  let statements ← readBlock parts node
  return .block statements result

def readLambda (parts : Readers) (node : Node) : Read Expression := do
  let parameters ← each node .lambdaParameter (readLambdaParameter parts)
  match node.child? .lambdaBody with
  | some body => .lambda parameters <$> readLambdaBody parts body
  | none => (.lambda parameters ∘ .expression) <$> one node .expression parts.expression

def readDictionaryEntry (parts : Readers) (node : Node) : Read DictionaryEntry :=
  match node.childrenOf .expression with
  | key :: value :: _ => return ⟨← parts.expression key, ← parts.expression value⟩
  | _ => missing node "key and value"

/-- What stands between the braces of an initializer: elements, or entries of a dictionary. -/
inductive Initializer
  | elements (elements : List Argument)
  | entries (entries : List DictionaryEntry)

def readInitializer (parts : Readers) (node : Node) : Read Initializer :=
  if node.has .dictionaryEntry then
    .entries <$> each node .dictionaryEntry (readDictionaryEntry parts)
  else .elements <$> readArguments parts node

/-- The elements of an initializer where a dictionary has no meaning. -/
def readElements (parts : Readers) (construct : Unsupported) (node : Node) :
    Read (List Argument) := do
  match ← readInitializer parts node with
  | .elements elements => return elements
  | .entries _ => unsupported node construct

def readElementType (node : Node) : Read ElementType :=
  match node.child? .primitiveTypeNoArray with
  | some kind => .primitive <$> readPrimitiveKind kind
  | none => .user <$> one node .userType readUserType

def readConstructorArguments (parts : Readers) (node : Node) : Read (List Argument) :=
  match node.child? .valueArguments, node.child? .initializerList with
  | some arguments, _ => readArguments parts arguments
  | none, some list => readElements parts .constructorDictionary list
  | none, none => missing node "constructor arguments"

def readConstructorInvocation (parts : Readers) (node : Node) : Read Expression := do
  let element ← readElementType node
  let sizes ← each node .arraySize fun size => one size .expression parts.expression
  match element.sized? sizes with
  | some (_, array) => return array
  | none =>
    let dimensions := (node.childrenOf .emptyDimension).length
    if dimensions = 0 then
      .construct element.type <$> readConstructorArguments parts node
    else
      let elements ← one node .initializerList (readElements parts .arrayDictionary)
      return .arrayOf (element.ofDimensions dimensions) elements

def readConditionKind (node : Node) : Read ConditionKind := do
  let kind ← first node
  let negated := kind.text.toList.head? == some '!'
  match kind.rule with
  | .kwCase => return .case
  | .inOperator => return .inside negated
  | .instanceOperator => return .ofType negated
  | _ => unexpected kind

/-- The conditions of one kind, followed by those of the kinds behind it. -/
def readConditions (parts : Readers) (node : Node) : Read (List Condition) := do
  let kind ← one node .conditionKind readConditionKind
  let values ← each node .expression parts.expression
  let others ← listUnder node .switchCondition parts.conditions
  return values.map (⟨kind, ·⟩) ++ others

def readSwitchBranch (parts : Readers) (node : Node) : Read Branch := do
  let conditions ← one node .switchCondition (readConditions parts)
  let body ← one node .statementBody (readBody parts)
  return ⟨conditions, body⟩

def readFallback (parts : Readers) (node : Node) : Read (Option Statement) :=
  atMostOne node .defaultBranch fun branch => one branch .statementBody (readBody parts)

def readSwitch (parts : Readers) (node : Node) : Read Expression := do
  let branches ← each node .switchBranch (readSwitchBranch parts)
  let subject ← one node .expression parts.expression
  let fallback ← readFallback parts node
  return .switch (some subject) branches fallback

def readWhenBranch (parts : Readers) (node : Node) : Read Branch := do
  let conditions ← each node .expression parts.expression
  let body ← one node .statementBody (readBody parts)
  return ⟨conditions.map (⟨.case, ·⟩), body⟩

def readWhen (parts : Readers) (node : Node) : Read Expression := do
  let branches ← each node .whenBranch (readWhenBranch parts)
  let fallback ← readFallback parts node
  return .switch none branches fallback

def readLiteral (parts : Readers) (node : Node) : Read Expression :=
  match node.rule with
  | .multilineStringLiteral => return .literal (.multilineString node.text)
  | .stringLiteral => return .literal (.string node.text)
  | .charLiteral => return .literal (.char node.text)
  | .realLiteral => return .literal (.real node.text)
  | .longLiteral => return .literal (.long node.text)
  | .integerLiteral => return .literal (.integer node.text)
  | .booleanLiteral => return .literal (.boolean (node.text == "true"))
  | .nullLiteral => return .literal .null
  | .voidLiteral => return .literal .void
  | .thisLiteral => return .literal .this
  | .superLiteral => (.literal ∘ .super) <$> atMostOne node .userType readUserType
  | .lambda => readLambda parts node
  | .initializerList => do
    match ← readInitializer parts node with
    | .elements elements => return .initializer elements
    | .entries entries => return .dictionary entries
  | _ => unexpected node

def readOperand (parts : Readers) (node : Node) : Read Expression :=
  match node.rule with
  | .literal => do readLiteral parts (← first node)
  | .constructorInvocation => readConstructorInvocation parts node
  | .switchExpression => readSwitch parts node
  | .whenExpression => readWhen parts node
  | .expression => .parenthesized <$> parts.expression node
  | .simpleIdentifier => return .identifier node.text
  | _ => unexpected node

def PostfixOperator.ofSymbol? : String → Option PostfixOperator
  | "++" => some .increment
  | "--" => some .decrement
  | "!!" => some .notNull
  | _ => none

/-- A call; a lambda behind the parentheses is the last argument. -/
def readInvocation (parts : Readers) (node : Node) : Read PostfixOperator := do
  let typeArguments ← listUnder node .typeArguments readTypeArguments
  let arguments ← listUnder node .valueArguments (readArguments parts)
  let trailing ← atMostOne node .lambdaBody (readLambdaBody parts)
  let trailing := trailing.toList.map fun body => Argument.positional (.lambda [] body)
  return .invocation typeArguments (arguments ++ trailing)

def readCallTarget (node : Node) : Read CallTarget :=
  if node.has .classReference then .ok .classObject else .named <$> nameOf node

def readPostfixOperator (parts : Readers) (node : Node) : Read PostfixOperator := do
  let operator ← first node
  match operator.rule with
  | .postfixToken => meaning PostfixOperator.ofSymbol? operator
  | .invocationSuffix => readInvocation parts operator
  | .indexingSuffix => .indexing <$> each operator .expression parts.expression
  | .callSuffix => do
    let kind ← one operator .callOperator (meaning CallKind.ofSymbol?)
    return .call kind (← readCallTarget operator)
  | _ => unexpected operator

def readPrefixed (operator : Node) (operand : Expression) : Read Expression :=
  match operator.rule with
  | .spreadOperator => return .spread operand
  | _ => return .prefixed (← meaning PrefixOperator.ofSymbol? operator) operand

def readSuffixed (parts : Readers) (operand : Expression) (operator : Node) : Read Expression :=
  match operator.rule with
  | .castOperator => do
    return .cast operand (← one operator .typeUse readType) (operator.has .safeCast)
  | _ => return .suffixed operand (← readPostfixOperator parts operator)

/-- The operator of an infix token that only joins two operands. -/
def readBinaryOperator (node : Node) : Read BinaryOperator :=
  match node.rule with
  | .disjunctionOperator => return .disjunction
  | .conjunctionOperator => return .conjunction
  | .equalityOperator => .equality <$> meaning EqualityOperator.ofSymbol? node
  | .comparisonOperator => .comparison <$> meaning ComparisonOperator.ofSymbol? node
  | .spaceshipOperator => return .spaceship
  | .bitOrOperator => return .bitOr
  | .bitXorOperator => return .bitXor
  | .bitAndOperator => return .bitAnd
  | .shiftOperator => .shift <$> meaning ShiftOperator.ofSymbol? node
  | .namedCheckOperator => .check <$> meaning CheckOperator.ofSymbol? node
  | .elvisOperator => return .elvis
  | .rangeOperator => return .range
  | .sumOperator => .sum <$> meaning SumOperator.ofSymbol? node
  | .productOperator => .product <$> meaning ProductOperator.ofSymbol? node
  | _ => unexpected node

def readInfix (parts : Readers) (left : Expression) (operator : Node) (right : Expression) :
    Read Expression :=
  match operator.rule with
  | .assignmentOperator => do
    return .assign left (← meaning AssignmentOperator.ofSymbol? operator) right
  | .ternaryOperator => do
    return .ternary left (← one operator .expression parts.expression) right
  | _ => return .binary (← readBinaryOperator operator) left right

/-- Reads a grouping from left to right. -/
def readGrouping (parts : Readers) : Grouping Node → Read Expression
  | .leaf node => readOperand parts node
  | .before operator operand => do readPrefixed operator (← readGrouping parts operand)
  | .behind operand operator => do readSuffixed parts (← readGrouping parts operand) operator
  | .between left operator right => do
    let left ← readGrouping parts left
    let right ← readGrouping parts right
    readInfix parts left operator right

def readOperatorExpression (parts : Readers) (node : Node) : Read Expression :=
  match Precedence.group (fun item => roleOf item.rule) node.children with
  | some grouping => readGrouping parts grouping
  | none => missing node "operand"

/-- An operator expression, or a comprehension over one. -/
def readExpression (parts : Readers) (node : Node) : Read Expression := do
  let mapping ← one node .operatorExpression (readOperatorExpression parts)
  match node.child? .forSuffix with
  | none => return mapping
  | some suffix =>
    let condition ← atMostOne suffix .expression parts.expression
    let (item, source) ← one suffix .forEachCondition (readLoopHeader parts)
    return .comprehension mapping item source condition

end QuovaKotlin.Reading

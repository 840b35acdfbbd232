import QuovaKotlin.Reading.Expressions

/-!
# Reading statements
-/

set_option autoImplicit false

namespace QuovaKotlin.Reading

open Ast

/-- The postfix operators of an assignment target, applied from left to right. -/
def readSuffixes (parts : Readers) : Expression → List Node → Read Expression
  | operand, [] => .ok operand
  | operand, node :: nodes => do
    let operator ← readPostfixOperator parts node
    readSuffixes parts (.suffixed operand operator) nodes

def readAssignable (parts : Readers) (node : Node) : Read Expression :=
  match node.children with
  | [] => missing node "assignment target"
  | operand :: suffixes => do readSuffixes parts (← readOperand parts operand) suffixes

def readAssignment (parts : Readers) (node : Node) : Read Statement := do
  let target ← one node .assignableExpression (readAssignable parts)
  let operator ← one node .assignmentOperator (meaning AssignmentOperator.ofSymbol?)
  let value ← one node .expression parts.expression
  return .assignment target operator value

def readConditional (parts : Readers) (node : Node) : Read Statement :=
  match node.childrenOf .statementBody with
  | [] => missing node "if body"
  | consequent :: others => do
    let alternative ← others.head?.mapM (readBody parts)
    let condition ← one node .expression parts.expression
    let consequent ← readBody parts consequent
    return .conditional condition consequent alternative

def readForVariable (parts : Readers) (node : Node) : Read ForVariable := do
  let type ← readDeclaredType node
  let name ← nameOf node
  let value ← one node .expression parts.expression
  return ⟨type, name, value⟩

def readSimpleStatement (parts : Readers) (node : Node) : Read Statement := do
  let statement ← first node
  match statement.rule with
  | .assignment => readAssignment parts statement
  | .expression => .expression <$> parts.expression statement
  | _ => unexpected statement

def readFor (parts : Readers) (node : Node) : Read Statement :=
  match node.child? .forEachCondition with
  | some header => do
    let (item, source) ← readLoopHeader parts header
    let body ← one node .statementBody (readBody parts)
    return .forEach item source body
  | none => do
    let header ← required node .classicForCondition
    let initial ← each header .forVariable (readForVariable parts)
    let conditions ← each header .expression parts.expression
    let updates ← each header .simpleStatement (readSimpleStatement parts)
    let body ← one node .statementBody (readBody parts)
    return .forClassic initial conditions updates body

def readWhile (parts : Readers) (node : Node) : Read Statement := do
  let condition ← one node .expression parts.expression
  let body ← one node .statementBody (readBody parts)
  return .loop (node.has .kwDo) condition body

def readJump (parts : Readers) (node : Node) : Read Statement := do
  let keyword ← first node
  let label ← atMostOne node .jumpLabel nameOf
  let value ← atMostOne node .expression parts.expression
  match keyword.rule, value with
  | .kwBreak, _ => return .break label
  | .kwContinue, _ => return .continue label
  | .kwThrow, some value => return .throw value
  | .kwThrow, none => missing node "thrown value"
  | .kwReturn, _ => return .return label value
  | _, _ => unexpected keyword

def readLabeled (parts : Readers) (node : Node) : Read Statement := do
  let label ← nameOf node
  let statement ← one node .statement parts.statement
  return .labeled label statement

def readStatement (parts : Readers) (node : Node) : Read Statement := do
  let statement ← first node
  match statement.rule with
  | .labeledStatement => readLabeled parts statement
  | .declaration => .declaration <$> parts.declaration .block statement
  | .ifStatement => readConditional parts statement
  | .forStatement => readFor parts statement
  | .whileStatement => readWhile parts statement
  | .jumpStatement => readJump parts statement
  | .block => .block <$> readBlock parts statement
  | .assignment => readAssignment parts statement
  | .expression => .expression <$> parts.expression statement
  | .switchExpression => .expression <$> readSwitch parts statement
  | .whenExpression => .expression <$> readWhen parts statement
  | _ => unexpected statement

end QuovaKotlin.Reading

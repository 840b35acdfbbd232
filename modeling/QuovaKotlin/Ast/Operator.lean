/-!
# Operators

The operators of expressions and assignments, by class. Every class of infix operators has one
binding strength.
-/

set_option autoImplicit false

namespace QuovaKotlin.Ast

inductive ProductOperator
  | times
  | divide
  | modulo
  deriving DecidableEq, Repr

inductive SumOperator
  | plus
  | minus
  deriving DecidableEq, Repr

inductive ShiftOperator
  | left
  | right
  | unsignedRight
  deriving DecidableEq, Repr

/-- Membership and type tests. -/
inductive CheckOperator
  | inside
  | notInside
  | ofType
  | notOfType
  deriving DecidableEq, Repr

inductive ComparisonOperator
  | less
  | lessEqual
  | greater
  | greaterEqual
  deriving DecidableEq, Repr

inductive EqualityOperator
  | equal
  | notEqual
  | identical
  | notIdentical
  deriving DecidableEq, Repr

/-- The infix operators that only join two operands, tightest class first. -/
inductive BinaryOperator
  | product (operator : ProductOperator)
  | sum (operator : SumOperator)
  | range
  | elvis
  | check (operator : CheckOperator)
  | shift (operator : ShiftOperator)
  | bitAnd
  | bitXor
  | bitOr
  | spaceship
  | comparison (operator : ComparisonOperator)
  | equality (operator : EqualityOperator)
  | conjunction
  | disjunction
  deriving DecidableEq, Repr

inductive PrefixOperator
  | plus
  | minus
  | increment
  | decrement
  | not
  | complement
  | reference
  deriving DecidableEq, Repr

/-- How a member is reached: `?.`, `.` or `::`. -/
inductive CallKind
  | safe
  | dot
  | reference
  deriving DecidableEq, Repr

/-- What is reached: a named member or the class object. -/
inductive CallTarget
  | named (name : String)
  | classObject
  deriving DecidableEq, Repr

inductive AssignmentOperator
  | assign
  | plus
  | minus
  | times
  | divide
  | modulo
  | and
  | xor
  | or
  | shiftLeft
  | shiftRight
  | unsignedShiftRight
  | coalesce
  deriving DecidableEq, Repr

/-- How a condition of a switch branch tests the subject. -/
inductive ConditionKind
  | case
  | inside (negated : Bool)
  | ofType (negated : Bool)
  deriving DecidableEq, Repr

def ProductOperator.ofSymbol? : String → Option ProductOperator
  | "*" => some .times
  | "/" => some .divide
  | "%" => some .modulo
  | _ => none

def SumOperator.ofSymbol? : String → Option SumOperator
  | "+" => some .plus
  | "-" => some .minus
  | _ => none

def ShiftOperator.ofSymbol? : String → Option ShiftOperator
  | "<<" => some .left
  | ">>" => some .right
  | ">>>" => some .unsignedRight
  | _ => none

def CheckOperator.ofSymbol? : String → Option CheckOperator
  | "in" => some .inside
  | "!in" => some .notInside
  | "instanceof" => some .ofType
  | "!instanceof" => some .notOfType
  | _ => none

def ComparisonOperator.ofSymbol? : String → Option ComparisonOperator
  | "<" => some .less
  | "<=" => some .lessEqual
  | ">" => some .greater
  | ">=" => some .greaterEqual
  | _ => none

def EqualityOperator.ofSymbol? : String → Option EqualityOperator
  | "==" => some .equal
  | "!=" => some .notEqual
  | "===" => some .identical
  | "!==" => some .notIdentical
  | _ => none

def PrefixOperator.ofSymbol? : String → Option PrefixOperator
  | "++" => some .increment
  | "--" => some .decrement
  | "::" => some .reference
  | "+" => some .plus
  | "-" => some .minus
  | "!" => some .not
  | "~" => some .complement
  | _ => none

def CallKind.ofSymbol? : String → Option CallKind
  | "?." => some .safe
  | "::" => some .reference
  | "." => some .dot
  | _ => none

def AssignmentOperator.ofSymbol? : String → Option AssignmentOperator
  | "=" => some .assign
  | "+=" => some .plus
  | "-=" => some .minus
  | "*=" => some .times
  | "/=" => some .divide
  | "%=" => some .modulo
  | "&=" => some .and
  | "^=" => some .xor
  | "|=" => some .or
  | "<<=" => some .shiftLeft
  | ">>=" => some .shiftRight
  | ">>>=" => some .unsignedShiftRight
  | "??=" => some .coalesce
  | _ => none

def ProductOperator.tag : ProductOperator → String
  | times => "Times"
  | divide => "Divide"
  | modulo => "Modulo"

def SumOperator.tag : SumOperator → String
  | plus => "Plus"
  | minus => "Minus"

def ShiftOperator.tag : ShiftOperator → String
  | left => "Left"
  | right => "Right"
  | unsignedRight => "UnsignedRight"

def CheckOperator.tag : CheckOperator → String
  | inside => "In"
  | notInside => "NotIn"
  | ofType => "Is"
  | notOfType => "NotIs"

def ComparisonOperator.tag : ComparisonOperator → String
  | less => "Less"
  | lessEqual => "LessEqual"
  | greater => "Greater"
  | greaterEqual => "GreaterEqual"

def EqualityOperator.tag : EqualityOperator → String
  | equal => "Equal"
  | notEqual => "NotEqual"
  | identical => "Identical"
  | notIdentical => "NotIdentical"

/-- The name of the operator's class. -/
def BinaryOperator.tag : BinaryOperator → String
  | product _ => "Product"
  | sum _ => "Sum"
  | range => "Range"
  | elvis => "Elvis"
  | check _ => "NamedCheck"
  | shift _ => "Shift"
  | bitAnd => "BitAnd"
  | bitXor => "BitXor"
  | bitOr => "BitOr"
  | spaceship => "Spaceship"
  | comparison _ => "Comparison"
  | equality _ => "Equality"
  | conjunction => "Conjunction"
  | disjunction => "Disjunction"

/-- The name of the operator inside its class, if the class has more than one. -/
def BinaryOperator.member? : BinaryOperator → Option String
  | product o => some o.tag
  | sum o => some o.tag
  | check o => some o.tag
  | shift o => some o.tag
  | comparison o => some o.tag
  | equality o => some o.tag
  | _ => none

def PrefixOperator.tag : PrefixOperator → String
  | plus => "Plus"
  | minus => "Minus"
  | increment => "Increment"
  | decrement => "Decrement"
  | not => "Not"
  | complement => "Complement"
  | reference => "Reference"

def CallKind.tag : CallKind → String
  | safe => "Safe"
  | dot => "Dot"
  | reference => "Reference"

def AssignmentOperator.tag : AssignmentOperator → String
  | assign => "Assign"
  | plus => "Plus"
  | minus => "Minus"
  | times => "Times"
  | divide => "Divide"
  | modulo => "Modulo"
  | and => "And"
  | xor => "Xor"
  | or => "Or"
  | shiftLeft => "ShiftLeft"
  | shiftRight => "ShiftRight"
  | unsignedShiftRight => "UnsignedShiftRight"
  | coalesce => "Coalesce"

end QuovaKotlin.Ast

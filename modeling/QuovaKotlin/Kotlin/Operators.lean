import QuovaKotlin.Ast.Priority

/-!
# Kotlin text of operators

Bit operators and shifts are named infix functions in Kotlin. Half of the assignment operators have
no Kotlin form of their own and are spelled with the operator they combine with.
-/

set_option autoImplicit false

namespace QuovaKotlin.Ast

/-- The Kotlin symbol of an infix operator; the three-way comparison is a call and has none. -/
def BinaryOperator.symbol : BinaryOperator → String
  | product .times => "*"
  | product .divide => "/"
  | product .modulo => "%"
  | sum .plus => "+"
  | sum .minus => "-"
  | range => ".."
  | elvis => "?:"
  | check .inside => "in"
  | check .notInside => "!in"
  | check .ofType => "is"
  | check .notOfType => "!is"
  | shift .left => "shl"
  | shift .right => "shr"
  | shift .unsignedRight => "ushr"
  | bitAnd => "and"
  | bitXor => "xor"
  | bitOr => "or"
  | spaceship => "<=>"
  | comparison .less => "<"
  | comparison .lessEqual => "<="
  | comparison .greater => ">"
  | comparison .greaterEqual => ">="
  | equality .equal => "=="
  | equality .notEqual => "!="
  | equality .identical => "==="
  | equality .notIdentical => "!=="
  | conjunction => "&&"
  | disjunction => "||"

def PrefixOperator.symbol : PrefixOperator → String
  | plus => "+"
  | minus => "-"
  | increment => "++"
  | decrement => "--"
  | not => "!"
  | complement => "~"
  | reference => "::"

def CallKind.symbol : CallKind → String
  | safe => "?."
  | dot => "."
  | reference => "::"

def CallTarget.kotlin : CallTarget → String
  | named name => name
  | classObject => "class"

/-- The Kotlin assignment operator, if there is one. -/
def AssignmentOperator.native? : AssignmentOperator → Option String
  | assign => some "="
  | plus => some "+="
  | minus => some "-="
  | times => some "*="
  | divide => some "/="
  | modulo => some "%="
  | _ => none

/-- The Kotlin operator that combines the old value with the new one. -/
def AssignmentOperator.combining : AssignmentOperator → String
  | assign => "="
  | plus => "+"
  | minus => "-"
  | times => "*"
  | divide => "/"
  | modulo => "%"
  | and => "and"
  | xor => "xor"
  | or => "or"
  | shiftLeft => "shl"
  | shiftRight => "shr"
  | unsignedShiftRight => "ushr"
  | coalesce => "?:"

/-- The text of an expression with its priority. -/
structure Rendered where
  priority : Int
  text : String

/-- The text as an operand of an operator of priority `enclosing`. -/
def Rendered.under (r : Rendered) (enclosing : Int) : String :=
  if r.priority > enclosing then "(" ++ r.text ++ ")" else r.text

/-- Two operands joined by an infix operator. -/
def Rendered.join (operator : BinaryOperator) (left right : Rendered) : Rendered :=
  let priority := operator.priority
  let text :=
    match operator with
    | .range => left.under priority ++ ".." ++ right.under priority
    | .spaceship => left.under Priority.suffixed ++ ".compareTo(" ++ right.text ++ ")"
    | _ => left.under priority ++ " " ++ operator.symbol ++ " " ++ right.under priority
  ⟨priority, text⟩

/-- A number as an operand. -/
def Rendered.number (n : Nat) : Rendered :=
  ⟨Priority.primary, toString n⟩

/-- Counting with texts, as `Expression.counting` counts with expressions. -/
def Rendered.counting : Counting Rendered where
  number := Rendered.number
  add a n := .join (.sum .plus) a (.number n)
  bit a := .join (.shift .left) (.number 1) a

/--
A prefix operator in front of its operand. The complement is a call. A sign in front of another
prefix operator takes parentheses, so that two signs never run into one.
-/
def PrefixOperator.before (operator : PrefixOperator) (operand : Rendered)
    (operandIsPrefixed : Bool) : String :=
  match operator with
  | complement => "quova.internal.bitComplement(" ++ operand.text ++ ")"
  | plus | minus =>
    if operandIsPrefixed then operator.symbol ++ "(" ++ operand.text ++ ")"
    else operator.symbol ++ operand.under Priority.prefixed
  | _ => operator.symbol ++ operand.under Priority.prefixed

/-- The name under which an assignment that is used as a value binds that value. -/
def assignedValue : String :=
  "`av-`"

/-- An assignment that is used as a value: the value first, then the assignment on the side. -/
def AssignmentOperator.asValue (operator : AssignmentOperator) (target : String)
    (value : Rendered) : String :=
  match operator.native? with
  | some symbol =>
    value.under Priority.suffixed ++ ".also \x7b " ++ assignedValue ++ " -> " ++ target ++ " " ++
      symbol ++ " " ++ assignedValue ++ " \x7d"
  | none =>
    "(" ++ target ++ " " ++ operator.combining ++ " " ++ value.under Priority.suffixed ++
      ").also \x7b " ++ assignedValue ++ " -> " ++ target ++ " = " ++ assignedValue ++ " \x7d"

/-- An assignment statement; without a Kotlin operator it reads, combines and writes back. -/
def AssignmentOperator.asStatement (operator : AssignmentOperator) (target : String)
    (value : Rendered) : String :=
  match operator.native? with
  | some symbol => target ++ " " ++ symbol ++ " " ++ value.text
  | none =>
    target ++ " = " ++ target ++ " " ++ operator.combining ++ " " ++
      value.under Priority.suffixed

end QuovaKotlin.Ast

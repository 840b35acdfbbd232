import QuovaKotlin.Ast.Basic

/-!
# Priorities

Every expression has a fixed binding strength; a lower priority binds tighter. An operand is put in
parentheses exactly when its priority is greater than that of the operator around it.
-/

set_option autoImplicit false

namespace QuovaKotlin.Ast

namespace Priority

def primary : Int := -1
def suffixed : Int := 0
def prefixed : Int := 1
def product : Int := 2
def sum : Int := 3
def range : Int := 4
def elvis : Int := 5
def check : Int := 6
def cast : Int := 7
def shift : Int := 8
def bitAnd : Int := 9
def bitXor : Int := 10
def bitOr : Int := 11
def spaceship : Int := 12
def comparison : Int := 13
def equality : Int := 14
def conjunction : Int := 15
def disjunction : Int := 16
def ternary : Int := 17
def spread : Int := 18
def assignment : Int := 19
def comprehension : Int := 20

end Priority

def BinaryOperator.priority : BinaryOperator → Int
  | product _ => Priority.product
  | sum _ => Priority.sum
  | range => Priority.range
  | elvis => Priority.elvis
  | check _ => Priority.check
  | shift _ => Priority.shift
  | bitAnd => Priority.bitAnd
  | bitXor => Priority.bitXor
  | bitOr => Priority.bitOr
  | spaceship => Priority.spaceship
  | comparison _ => Priority.comparison
  | equality _ => Priority.equality
  | conjunction => Priority.conjunction
  | disjunction => Priority.disjunction

def Expression.priority : Expression → Int
  | .literal _ | .identifier _ | .construct .. | .arrayOf .. | .initializer _ | .dictionary _
  | .lambda .. | .switch .. | .parenthesized _ => Priority.primary
  | .suffixed .. => Priority.suffixed
  | .prefixed .. => Priority.prefixed
  | .cast .. => Priority.cast
  | .binary operator .. => operator.priority
  | .ternary .. => Priority.ternary
  | .spread _ => Priority.spread
  | .assign .. => Priority.assignment
  | .comprehension .. => Priority.comprehension

end QuovaKotlin.Ast

import QuovaKotlin.Precedence.Grouping
import QuovaKotlin.Source.Rule

/-!
# Operator levels

The levels of the operators of an expression, loosest first. The operators of one level share a
power, and the power grows by ten from level to level.
-/

set_option autoImplicit false

namespace QuovaKotlin.Reading

open Source (Rule)
open Precedence (Role)

/-- Every rule that makes operators, with its role at a given power. -/
def levels : List (Rule × (Nat → Role)) := [
  (.assignmentOperator, .rightToLeft),
  (.spreadOperator, .before),
  (.ternaryOperator, .rightToLeft),
  (.disjunctionOperator, .leftToRight),
  (.conjunctionOperator, .leftToRight),
  (.equalityOperator, .leftToRight),
  (.comparisonOperator, .leftToRight),
  (.spaceshipOperator, .leftToRight),
  (.bitOrOperator, .leftToRight),
  (.bitXorOperator, .leftToRight),
  (.bitAndOperator, .leftToRight),
  (.shiftOperator, .leftToRight),
  (.castOperator, .behind),
  (.namedCheckOperator, .leftToRight),
  (.elvisOperator, .leftToRight),
  (.rangeOperator, .leftToRight),
  (.sumOperator, .leftToRight),
  (.productOperator, .leftToRight),
  (.prefixOperator, .before),
  (.postfixOperator, .behind)]

/-- The role of what `rule` makes, searched from the level of the given power on. -/
def roleFrom (power : Nat) (rule : Rule) : List (Rule × (Nat → Role)) → Role
  | [] => .operand
  | (r, role) :: rest => if r = rule then role power else roleFrom (power + 10) rule rest

/-- The role of what `rule` makes in an operator expression. -/
def roleOf (rule : Rule) : Role :=
  roleFrom 10 rule levels

end QuovaKotlin.Reading

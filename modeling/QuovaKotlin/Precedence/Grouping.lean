/-!
# Operator precedence

A flat run of operands and operators is grouped into a tree. Every operator has a power; a greater
power binds tighter. An operator that waits for its right operand holds on to what follows as long
as the operators there have a greater power than its right binding power.
-/

set_option autoImplicit false

namespace QuovaKotlin.Precedence

/-- What an item of a flat run is. -/
inductive Role
  | operand
  | before (power : Nat)
  | behind (power : Nat)
  | leftToRight (power : Nat)
  | rightToLeft (power : Nat)
  deriving DecidableEq, Repr

/-- Items grouped by precedence. -/
inductive Grouping (τ : Type)
  | leaf (item : τ)
  | before (operator : τ) (operand : Grouping τ)
  | behind (operand : Grouping τ) (operator : τ)
  | between (left : Grouping τ) (operator : τ) (right : Grouping τ)
  deriving DecidableEq, Repr

/-- The items of a grouping from left to right. -/
def Grouping.items {τ : Type} : Grouping τ → List τ
  | leaf item => [item]
  | before operator operand => operator :: operand.items
  | behind operand operator => operand.items ++ [operator]
  | between left operator right => left.items ++ operator :: right.items

/-- An operator that waits for its right operand, with its right binding power. -/
inductive Waiting (τ : Type)
  | before (binding : Nat) (operator : τ)
  | between (binding : Nat) (left : Grouping τ) (operator : τ)

variable {τ : Type}

def Waiting.binding : Waiting τ → Nat
  | before binding _ => binding
  | between binding _ _ => binding

/-- The operator with its right operand. -/
def Waiting.complete : Waiting τ → Grouping τ → Grouping τ
  | before _ operator, right => .before operator right
  | between _ left operator, right => .between left operator right

/-- Completes the waiting operators that an operator of power `power` cannot take `right` from. -/
def settle (power : Nat) : List (Waiting τ) → Grouping τ → List (Waiting τ) × Grouping τ
  | [], right => ([], right)
  | w :: waiting, right =>
    if power ≤ w.binding then settle power waiting (w.complete right) else (w :: waiting, right)

/-- Completes all waiting operators. -/
def settleAll : List (Waiting τ) → Grouping τ → Grouping τ
  | [], right => right
  | w :: waiting, right => settleAll waiting (w.complete right)

mutual

/-- Goes on where an operand or a prefix operator must follow. -/
def atOperand (role : τ → Role) : List (Waiting τ) → List τ → Option (Grouping τ)
  | _, [] => none
  | waiting, item :: items =>
    match role item with
    | .operand => atOperator role waiting (.leaf item) items
    | .before power => atOperand role (.before (power - 1) item :: waiting) items
    | _ => none

/-- Goes on behind an operand, where a postfix or infix operator or the end must follow. -/
def atOperator (role : τ → Role) : List (Waiting τ) → Grouping τ → List τ → Option (Grouping τ)
  | waiting, left, [] => some (settleAll waiting left)
  | waiting, left, item :: items =>
    match role item with
    | .behind power =>
      let (waiting, left) := settle power waiting left
      atOperator role waiting (.behind left item) items
    | .leftToRight power =>
      let (waiting, left) := settle power waiting left
      atOperand role (.between power left item :: waiting) items
    | .rightToLeft power =>
      let (waiting, left) := settle power waiting left
      atOperand role (.between (power - 1) left item :: waiting) items
    | _ => none

end

/-- The grouping of a flat run, if operands and operators alternate as they must. -/
def group (role : τ → Role) (items : List τ) : Option (Grouping τ) :=
  atOperand role [] items

end QuovaKotlin.Precedence

import QuovaKotlin.Peg.Pattern

/-!
# Furthest attempts

While a grammar runs, it keeps the furthest place at which a rule was tried in vain, with the rules
that were expected there and the rules that matched where they must not. A rule that fails takes
the place of the attempts of its own inner rules at the same place, unless there was just one.
-/

set_option autoImplicit false

namespace QuovaKotlin.Peg

/-- The attempts at the furthest place so far. Both lists have the latest attempt first. -/
structure Attempts (ρ : Type) where
  furthest : Nat := 0
  expected : List ρ := []
  unexpected : List ρ := []
  deriving Repr

namespace Attempts

variable {ρ : Type}

/-- How many attempts are on record at `index`. -/
def countAt (t : Attempts ρ) (index : Nat) : Nat :=
  if index = t.furthest then t.expected.length + t.unexpected.length else 0

/-- The first `n` attempts of a list that has the latest attempt first. -/
def oldest (n : Nat) (attempts : List ρ) : List ρ :=
  attempts.drop (attempts.length - n)

/-- What is remembered when a rule starts: the attempts already made at its place. -/
structure Mark where
  expected : Nat
  unexpected : Nat

def mark (t : Attempts ρ) (index : Nat) : Mark :=
  if index = t.furthest then ⟨t.expected.length, t.unexpected.length⟩ else ⟨0, 0⟩

/-- Puts rule `r` on record at the furthest place. -/
def push (t : Attempts ρ) (negative : Bool) (r : ρ) : Attempts ρ :=
  if negative then { t with unexpected := r :: t.unexpected }
  else { t with expected := r :: t.expected }

/--
Records that rule `r`, started at `index` under `before`, was tried in vain. When exactly one
attempt was added inside the rule, that one stays and `r` is left out. Otherwise `r` stands for all
of them. Attempts in front of the furthest place are dropped.
-/
def track (t : Attempts ρ) (r : ρ) (index : Nat) (before : Mark) (negative : Bool) : Attempts ρ :=
  if t.countAt index = before.expected + before.unexpected + 1 then t
  else if index < t.furthest then t
  else if index = t.furthest then
    { t with
      expected := oldest before.expected t.expected
      unexpected := oldest before.unexpected t.unexpected }.push negative r
  else push ⟨index, [], []⟩ negative r

end Attempts

/-- `a`, `a or b`, or `a, b, or c`. -/
def enumerate : List String → String
  | [] => ""
  | [a] => a
  | [a, b] => a ++ " or " ++ b
  | names => ", ".intercalate names.dropLast ++ ", or " ++ names.getLast?.getD ""

namespace Grammar

variable {ρ : Type} [DecidableEq ρ]

/-- The names of the listed rules, each once, in grammar order. -/
def namesOf (g : Grammar ρ) (listed : List ρ) : List String :=
  (g.rules.filter (· ∈ listed)).map g.name

/-- What was expected, and what was not, at the furthest place. -/
def expectation (g : Grammar ρ) (t : Attempts ρ) : String :=
  match g.namesOf t.unexpected, g.namesOf t.expected with
  | [], [] => "unknown parsing error"
  | [], expected => "expected " ++ enumerate expected
  | unexpected, [] => "unexpected " ++ enumerate unexpected
  | unexpected, expected =>
      "unexpected " ++ enumerate unexpected ++ "; expected " ++ enumerate expected

end Grammar

end QuovaKotlin.Peg

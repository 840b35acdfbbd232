import QuovaKotlin.Kotlin.Operators
import QuovaKotlin.Proofs.Reading.Inversion
import QuovaKotlin.Reading.Expressions

/-!
# The spellings of operators

How each operator is written in the source and in Kotlin, listed by operator. Reading goes the other
way, from the text of a token to an operator: it finds an operator in its own spelling only, and
every operator in that.
-/

set_option autoImplicit false

namespace QuovaKotlin.Ast

/-- The rule of the tokens that are read as an infix operator. -/
def BinaryOperator.rule : BinaryOperator → Source.Rule
  | product _ => .productOperator
  | sum _ => .sumOperator
  | range => .rangeOperator
  | elvis => .elvisOperator
  | check _ => .namedCheckOperator
  | shift _ => .shiftOperator
  | bitAnd => .bitAndOperator
  | bitXor => .bitXorOperator
  | bitOr => .bitOrOperator
  | spaceship => .spaceshipOperator
  | comparison _ => .comparisonOperator
  | equality _ => .equalityOperator
  | conjunction => .conjunctionOperator
  | disjunction => .disjunctionOperator

/-- The source symbol of an infix operator. -/
def BinaryOperator.sourceSymbol : BinaryOperator → String
  | product .times => "*"
  | product .divide => "/"
  | product .modulo => "%"
  | sum .plus => "+"
  | sum .minus => "-"
  | range => ".."
  | elvis => "??"
  | check .inside => "in"
  | check .notInside => "!in"
  | check .ofType => "instanceof"
  | check .notOfType => "!instanceof"
  | shift .left => "<<"
  | shift .right => ">>"
  | shift .unsignedRight => ">>>"
  | bitAnd => "&"
  | bitXor => "^"
  | bitOr => "|"
  | spaceship => "<=>"
  | comparison .less => "<"
  | comparison .lessEqual => "<="
  | comparison .greater => ">"
  | comparison .greaterEqual => ">="
  | equality .equal => "=="
  | equality .notEqual => "!="
  | equality .identical => "==="
  | equality .notIdentical => "!=="
  | conjunction => "&&"
  | disjunction => "||"

/-- No other operator has a token of the same rule, so that the rule alone tells the operator. -/
def BinaryOperator.isAlone : BinaryOperator → Bool
  | range | elvis | bitAnd | bitXor | bitOr | spaceship | conjunction | disjunction => true
  | product _ | sum _ | check _ | shift _ | comparison _ | equality _ => false

def PrefixOperator.sourceSymbol : PrefixOperator → String
  | plus => "+"
  | minus => "-"
  | increment => "++"
  | decrement => "--"
  | not => "!"
  | complement => "~"
  | reference => "::"

def AssignmentOperator.sourceSymbol : AssignmentOperator → String
  | assign => "="
  | plus => "+="
  | minus => "-="
  | times => "*="
  | divide => "/="
  | modulo => "%="
  | and => "&="
  | xor => "^="
  | or => "|="
  | shiftLeft => "<<="
  | shiftRight => ">>="
  | unsignedShiftRight => ">>>="
  | coalesce => "??="

/-- How Kotlin writes an infix operator. The three-way comparison is a call and has no symbol. -/
def BinaryOperator.kotlinSymbol : BinaryOperator → String
  | product .times => "*"
  | product .divide => "/"
  | product .modulo => "%"
  | sum .plus => "+"
  | sum .minus => "-"
  | range => ".."
  | elvis => "?:"
  | check .inside => "in"
  | check .notInside => "!in"
  | check .ofType => "is"
  | check .notOfType => "!is"
  | shift .left => "shl"
  | shift .right => "shr"
  | shift .unsignedRight => "ushr"
  | bitAnd => "and"
  | bitXor => "xor"
  | bitOr => "or"
  | spaceship => ""
  | comparison .less => "<"
  | comparison .lessEqual => "<="
  | comparison .greater => ">"
  | comparison .greaterEqual => ">="
  | equality .equal => "=="
  | equality .notEqual => "!="
  | equality .identical => "==="
  | equality .notIdentical => "!=="
  | conjunction => "&&"
  | disjunction => "||"

theorem BinaryOperator.kotlinSymbol_eq {operator : BinaryOperator} (h : operator ≠ .spaceship) :
    operator.kotlinSymbol = operator.symbol := by
  cases operator with
  | product o | sum o | check o | shift o | comparison o | equality o => cases o <;> rfl
  | range | elvis | bitAnd | bitXor | bitOr | conjunction | disjunction => rfl
  | spaceship => exact absurd rfl h

/-- Kotlin writes the prefix operators as the source does. -/
theorem PrefixOperator.symbol_eq (operator : PrefixOperator) :
    operator.symbol = operator.sourceSymbol := by
  cases operator <;> rfl

theorem ProductOperator.ofSymbol?_eq_some_iff {text : String} {o : ProductOperator} :
    ofSymbol? text = some o ↔ text = (BinaryOperator.product o).sourceSymbol := by
  constructor
  · intro h
    unfold ofSymbol? at h
    split at h <;> cases h <;> rfl
  · rintro rfl
    cases o <;> rfl

theorem SumOperator.ofSymbol?_eq_some_iff {text : String} {o : SumOperator} :
    ofSymbol? text = some o ↔ text = (BinaryOperator.sum o).sourceSymbol := by
  constructor
  · intro h
    unfold ofSymbol? at h
    split at h <;> cases h <;> rfl
  · rintro rfl
    cases o <;> rfl

theorem CheckOperator.ofSymbol?_eq_some_iff {text : String} {o : CheckOperator} :
    ofSymbol? text = some o ↔ text = (BinaryOperator.check o).sourceSymbol := by
  constructor
  · intro h
    unfold ofSymbol? at h
    split at h <;> cases h <;> rfl
  · rintro rfl
    cases o <;> rfl

theorem ShiftOperator.ofSymbol?_eq_some_iff {text : String} {o : ShiftOperator} :
    ofSymbol? text = some o ↔ text = (BinaryOperator.shift o).sourceSymbol := by
  constructor
  · intro h
    unfold ofSymbol? at h
    split at h <;> cases h <;> rfl
  · rintro rfl
    cases o <;> rfl

theorem ComparisonOperator.ofSymbol?_eq_some_iff {text : String} {o : ComparisonOperator} :
    ofSymbol? text = some o ↔ text = (BinaryOperator.comparison o).sourceSymbol := by
  constructor
  · intro h
    unfold ofSymbol? at h
    split at h <;> cases h <;> rfl
  · rintro rfl
    cases o <;> rfl

theorem EqualityOperator.ofSymbol?_eq_some_iff {text : String} {o : EqualityOperator} :
    ofSymbol? text = some o ↔ text = (BinaryOperator.equality o).sourceSymbol := by
  constructor
  · intro h
    unfold ofSymbol? at h
    split at h <;> cases h <;> rfl
  · rintro rfl
    cases o <;> rfl

theorem PrefixOperator.ofSymbol?_eq_some_iff {text : String} {o : PrefixOperator} :
    ofSymbol? text = some o ↔ text = o.sourceSymbol := by
  constructor
  · intro h
    unfold ofSymbol? at h
    split at h <;> cases h <;> rfl
  · rintro rfl
    cases o <;> rfl

theorem AssignmentOperator.ofSymbol?_eq_some_iff {text : String} {o : AssignmentOperator} :
    ofSymbol? text = some o ↔ text = o.sourceSymbol := by
  constructor
  · intro h
    unfold ofSymbol? at h
    split at h <;> cases h <;> rfl
  · rintro rfl
    cases o <;> rfl

end QuovaKotlin.Ast

namespace QuovaKotlin.Reading

open Ast

variable {node : Node}

/-- The operator of a class whose tokens are told apart by their texts. -/
theorem map_meaning_eq_ok_iff {α β : Type} {f : α → β} {table : String → Option α}
    {symbol : α → String} (htable : ∀ {text a}, table text = some a ↔ text = symbol a) {b : β} :
    f <$> meaning table node = .ok b ↔ ∃ a, b = f a ∧ node.text = symbol a := by
  constructor
  · intro h
    obtain ⟨a, ha, rfl⟩ := map_eq_ok h
    exact ⟨a, rfl, htable.mp (meaning_eq_ok_iff.mp ha)⟩
  · rintro ⟨a, rfl, htext⟩
    rw [meaning_eq_ok_iff.mpr (htable.mpr htext)]
    rfl

/-- An infix token is read as the operator of its rule that has its text. -/
theorem readBinaryOperator_eq_ok_iff {operator : BinaryOperator} :
    readBinaryOperator node = .ok operator ↔
      node.rule = operator.rule ∧ (operator.isAlone ∨ node.text = operator.sourceSymbol) := by
  constructor
  · intro h
    unfold readBinaryOperator at h
    split at h
    · next hrule => cases h; exact ⟨hrule, .inl rfl⟩
    · next hrule => cases h; exact ⟨hrule, .inl rfl⟩
    · next hrule =>
      obtain ⟨o, rfl, htext⟩ := (map_meaning_eq_ok_iff EqualityOperator.ofSymbol?_eq_some_iff).mp h
      exact ⟨hrule, .inr htext⟩
    · next hrule =>
      obtain ⟨o, rfl, htext⟩ :=
        (map_meaning_eq_ok_iff ComparisonOperator.ofSymbol?_eq_some_iff).mp h
      exact ⟨hrule, .inr htext⟩
    · next hrule => cases h; exact ⟨hrule, .inl rfl⟩
    · next hrule => cases h; exact ⟨hrule, .inl rfl⟩
    · next hrule => cases h; exact ⟨hrule, .inl rfl⟩
    · next hrule => cases h; exact ⟨hrule, .inl rfl⟩
    · next hrule =>
      obtain ⟨o, rfl, htext⟩ := (map_meaning_eq_ok_iff ShiftOperator.ofSymbol?_eq_some_iff).mp h
      exact ⟨hrule, .inr htext⟩
    · next hrule =>
      obtain ⟨o, rfl, htext⟩ := (map_meaning_eq_ok_iff CheckOperator.ofSymbol?_eq_some_iff).mp h
      exact ⟨hrule, .inr htext⟩
    · next hrule => cases h; exact ⟨hrule, .inl rfl⟩
    · next hrule => cases h; exact ⟨hrule, .inl rfl⟩
    · next hrule =>
      obtain ⟨o, rfl, htext⟩ := (map_meaning_eq_ok_iff SumOperator.ofSymbol?_eq_some_iff).mp h
      exact ⟨hrule, .inr htext⟩
    · next hrule =>
      obtain ⟨o, rfl, htext⟩ := (map_meaning_eq_ok_iff ProductOperator.ofSymbol?_eq_some_iff).mp h
      exact ⟨hrule, .inr htext⟩
    · cases h
  · rintro ⟨hrule, hsymbol⟩
    unfold readBinaryOperator
    rw [hrule]
    cases operator with
    | range | elvis | bitAnd | bitXor | bitOr | spaceship | conjunction | disjunction => rfl
    | product o =>
      exact (map_meaning_eq_ok_iff ProductOperator.ofSymbol?_eq_some_iff).mpr
        ⟨o, rfl, hsymbol.resolve_left nofun⟩
    | sum o =>
      exact (map_meaning_eq_ok_iff SumOperator.ofSymbol?_eq_some_iff).mpr
        ⟨o, rfl, hsymbol.resolve_left nofun⟩
    | check o =>
      exact (map_meaning_eq_ok_iff CheckOperator.ofSymbol?_eq_some_iff).mpr
        ⟨o, rfl, hsymbol.resolve_left nofun⟩
    | shift o =>
      exact (map_meaning_eq_ok_iff ShiftOperator.ofSymbol?_eq_some_iff).mpr
        ⟨o, rfl, hsymbol.resolve_left nofun⟩
    | comparison o =>
      exact (map_meaning_eq_ok_iff ComparisonOperator.ofSymbol?_eq_some_iff).mpr
        ⟨o, rfl, hsymbol.resolve_left nofun⟩
    | equality o =>
      exact (map_meaning_eq_ok_iff EqualityOperator.ofSymbol?_eq_some_iff).mpr
        ⟨o, rfl, hsymbol.resolve_left nofun⟩

end QuovaKotlin.Reading

import Mathlib.Algebra.Group.Nat.Defs
import QuovaKotlin.Peg.Pattern
import QuovaKotlin.Proofs.ConstantNumbering

/-!
# Numbers of sequential constants

Numbering is written over any kind of value. What the expressions of constants evaluate to can
therefore be counted with numbers from the start, and a map that respects counting takes one
numbering to the other. With numbers it is plain what an implicit constant is: it counts on from the
value that was written last, which is the number of the constant in front of it, unless that one was
written as a bit.
-/

set_option autoImplicit false

namespace QuovaKotlin.Ast

variable {α β : Type}

namespace ConstantEntry

/-- The same entry with another kind of value. -/
def map (f : α → β) : ConstantEntry α → ConstantEntry β
  | implicit name => implicit name
  | assigned name value => assigned name (f value)
  | shifted name value => shifted name (f value)

/-- The value is given as a bit. -/
def isShifted : ConstantEntry α → Bool
  | shifted .. => true
  | _ => false

theorem isShifted_map (f : α → β) (entry : ConstantEntry α) :
    (entry.map f).isShifted = entry.isShifted := by
  cases entry <;> rfl

end ConstantEntry

namespace Counting

/-- `f` respects all that numbering does with values. -/
structure Maps (count : Counting α) (count' : Counting β) (f : α → β) : Prop where
  number (n : Nat) : f (count.number n) = count'.number n
  add (a : α) (n : Nat) : f (count.add a n) = count'.add (f a) n
  bit (a : α) : f (count.bit a) = count'.bit (f a)

variable {count : Counting α} {count' : Counting β} {f : α → β}

theorem Maps.next (h : Maps count count' f) (last : Option α) (offset : Nat) :
    f (count.next last offset) = count'.next (last.map f) offset := by
  cases last with
  | none => exact h.number offset
  | some a => exact h.add a offset

theorem Maps.valueIn (h : Maps count count' f) (bitfield : Bool) (state : State α)
    (entry : ConstantEntry α) :
    f (count.valueIn bitfield state entry) =
      count'.valueIn bitfield ⟨state.last.map f, state.offset⟩ (entry.map f) := by
  cases entry with
  | assigned name value => rfl
  | shifted name value => exact h.bit value
  | implicit name =>
    cases bitfield with
    | true => exact (h.bit _).trans (congrArg count'.bit (h.next state.last state.offset))
    | false => exact h.next state.last state.offset

theorem State.behind_map (f : α → β) (state : State α) (entry : ConstantEntry α) :
    State.behind ⟨state.last.map f, state.offset⟩ (entry.map f) =
      ⟨(state.behind entry).last.map f, (state.behind entry).offset⟩ := by
  cases entry <;> rfl

theorem Maps.valuesIn (h : Maps count count' f) (bitfield : Bool) (state : State α)
    (entries : List (ConstantEntry α)) :
    count'.valuesIn bitfield ⟨state.last.map f, state.offset⟩ (entries.map (·.map f)) =
      (count.valuesIn bitfield state entries).map f := by
  induction entries generalizing state with
  | nil => rfl
  | cons entry entries ih =>
    rw [List.map_cons, valuesIn_cons, State.behind_map, ih, ← h.valueIn, valuesIn_cons,
      List.map_cons]

/-- Values can be mapped before or after they are numbered. -/
theorem Maps.values (h : Maps count count' f) (bitfield : Bool)
    (entries : List (ConstantEntry α)) :
    count'.values bitfield (entries.map (·.map f)) = (count.values bitfield entries).map f :=
  h.valuesIn bitfield .start entries

/-- Counting with values that may be absent. -/
def optional (count : Counting α) : Counting (Option α) where
  number n := some (count.number n)
  add a n := a.map (count.add · n)
  bit a := a.map count.bit

theorem maps_some (count : Counting α) : Maps count count.optional some :=
  ⟨fun _ => rfl, fun _ _ => rfl, fun _ => rfl⟩

/-- Counting with numbers: the bit at a position is a power of two. -/
def ofNumbers : Counting Nat where
  number n := n
  add a n := a + n
  bit a := 2 ^ a

theorem ofNumbers_next (last : Option Nat) (offset : Nat) :
    ofNumbers.next last offset = last.getD 0 + offset := by
  cases last with
  | none => exact (Nat.zero_add offset).symm
  | some a => rfl

theorem stateBehind_take_succ {entries : List (ConstantEntry α)} {i : Nat}
    {entry : ConstantEntry α} (h : entries[i]? = some entry) :
    stateBehind (entries.take (i + 1)) = (stateBehind (entries.take i)).behind entry := by
  rw [stateBehind, List.take_add_one, h, List.foldl_append]
  rfl

/-- Behind an entry an implicit constant is one more, except behind a bit: there it is one more than
the position, which is less. -/
theorem ofNumbers_behind {entries : List (ConstantEntry Nat)} {i : Nat} {name : String}
    {entry : ConstantEntry Nat} (hentry : entries[i]? = some entry)
    (hnext : entries[i + 1]? = some (.implicit name)) :
    ∃ before after, (ofNumbers.values false entries)[i]? = some before ∧
      (ofNumbers.values false entries)[i + 1]? = some after ∧
      (after = before + 1 ↔ entry.isShifted = false) ∧
      ∀ bit position, entry = .shifted bit position →
        before = 2 ^ position ∧ after = position + 1 := by
  refine ⟨_, _, ofNumbers.getElem?_values false hentry, ofNumbers.getElem?_values false hnext, ?_⟩
  rw [stateBehind_take_succ hentry]
  generalize stateBehind (entries.take i) = state
  cases entry with
  | implicit =>
    have hafter : ofNumbers.next state.last (state.offset + 1) =
        ofNumbers.next state.last state.offset + 1 := by
      rw [ofNumbers_next, ofNumbers_next, Nat.add_assoc]
    exact ⟨iff_of_true hafter rfl, nofun⟩
  | assigned => exact ⟨iff_of_true rfl rfl, nofun⟩
  | shifted bit position =>
    have hless : position < 2 ^ position := Nat.lt_two_pow_self
    refine ⟨iff_of_false (fun h => ?_) nofun, ?_⟩
    · have heq : position + 1 = 2 ^ position + 1 := h
      omega
    · rintro _ _ ⟨⟩
      exact ⟨rfl, rfl⟩

end Counting

/-- The value of a digit to any base up to sixteen. -/
def digitValue (x : Char) : Nat :=
  if x.isDigit then x.toNat - '0'.toNat
  else if x.isLower then x.toNat - 'a'.toNat + 10
  else x.toNat - 'A'.toNat + 10

/-- The number that the digits of a text spell; marks and suffixes count for nothing. -/
def numberIn (base : Nat) (text : List Char) : Nat :=
  (text.filter Peg.CharClass.hexDigit.accepts).foldl (fun n x => base * n + digitValue x) 0

/-- The number that an integer literal stands for. -/
def numberOf (text : String) : Nat :=
  match text.toList with
  | '0' :: 'x' :: digits | '0' :: 'X' :: digits => numberIn 16 digits
  | '0' :: 'b' :: digits | '0' :: 'B' :: digits => numberIn 2 digits
  | digits => numberIn 10 digits

/-- What an expression of integers, sums and left shifts evaluates to. -/
def Expression.number? : Expression → Option Nat
  | .literal (.integer text) => some (numberOf text)
  | .parenthesized inner => inner.number?
  | .binary (.sum .plus) left right => do return (← left.number?) + (← right.number?)
  | .binary (.shift .left) left right => do return (← left.number?) * 2 ^ (← right.number?)
  | _ => none

theorem foldl_digitValue {digits : List Char} (h : ∀ x ∈ digits, x.isDigit) (n : Nat) :
    digits.foldl (fun n x => 10 * n + digitValue x) n = Nat.ofDigitChars 10 digits n := by
  induction digits generalizing n with
  | nil => rfl
  | cons x digits ih =>
    obtain ⟨hx, hdigits⟩ := List.forall_mem_cons.mp h
    rw [List.foldl_cons, ih hdigits, Nat.ofDigitChars_cons, digitValue, if_pos hx]

theorem numberIn_of_digits {digits : List Char} (h : ∀ x ∈ digits, x.isDigit) :
    numberIn 10 digits = Nat.ofDigitChars 10 digits 0 := by
  have hfilter : digits.filter Peg.CharClass.hexDigit.accepts = digits := by
    refine List.filter_eq_self.mpr fun x hx => ?_
    simp [Peg.CharClass.accepts, h x hx]
  rw [numberIn, hfilter, foldl_digitValue h]

theorem numberOf_of_digits {text : String} (h : ∀ x ∈ text.toList, x.isDigit) :
    numberOf text = Nat.ofDigitChars 10 text.toList 0 := by
  rw [numberOf, ← numberIn_of_digits h]
  -- The mark of another base is no digit.
  split
  case h_5 => rfl
  all_goals
    next heq =>
    rw [heq] at h
    exact absurd (h _ (List.mem_cons_of_mem _ List.mem_cons_self)) (by decide)

theorem toList_toString (n : Nat) : (toString n).toList = Nat.toDigits 10 n := by
  rw [Nat.toString_eq_repr, Nat.toList_repr]

theorem isDigit_toString (n : Nat) : ∀ x ∈ (toString n).toList, x.isDigit := by
  rw [toList_toString]
  exact fun x hx => Nat.isDigit_of_mem_toDigits (by decide) (by decide) hx

theorem numberOf_toString (n : Nat) : numberOf (toString n) = n := by
  rw [numberOf_of_digits (isDigit_toString n), toList_toString,
    Nat.ofDigitChars_toDigits (by decide) (by decide)]

theorem Expression.number?_integer (n : Nat) :
    (Expression.integer (toString n)).number? = some n :=
  congrArg some (numberOf_toString n)

/-- Evaluating takes expressions to numbers. -/
theorem Expression.maps_number? :
    Counting.Maps Expression.counting Counting.ofNumbers.optional Expression.number? where
  number := number?_integer
  add a n := by
    show (do return (← a.number?) + (← (Expression.integer (toString n)).number?)) = _
    rw [number?_integer]
    cases a.number? <;> rfl
  bit a := by
    show (do return (← (Expression.integer (toString 1)).number?) * 2 ^ (← a.number?)) = _
    rw [number?_integer]
    cases a.number? with
    | none => rfl
    | some position => exact congrArg some (Nat.one_mul _)

/-- Every value that is written in the entries is an integer literal. -/
def IntegersOnly (entries : List (ConstantEntry Expression)) : Prop :=
  ∀ entry ∈ entries, ∀ value ∈ entry.given?, ∃ text, value = .integer text

/-- The entry with its number in place of the literal. -/
def ConstantEntry.numeric (entry : ConstantEntry Expression) : ConstantEntry Nat :=
  entry.map fun value => value.number?.getD 0

theorem ConstantEntry.map_some_numeric {entry : ConstantEntry Expression}
    (h : ∀ value ∈ entry.given?, ∃ text, value = .integer text) :
    entry.numeric.map some = entry.map Expression.number? := by
  cases entry with
  | implicit name => rfl
  | assigned name value | shifted name value =>
    obtain ⟨text, rfl⟩ := h value rfl
    rfl

/-- The numbers of constants are counted from the numbers that are written. -/
theorem IntegersOnly.number?_constantValues {entries : List (ConstantEntry Expression)}
    (h : IntegersOnly entries) (bitfield : Bool) :
    (constantValues bitfield entries).map Expression.number? =
      (Counting.ofNumbers.values bitfield (entries.map (·.numeric))).map some := by
  have hentries : (entries.map (·.numeric)).map (·.map some) =
      entries.map (·.map Expression.number?) := by
    rw [List.map_map]
    exact List.map_congr_left fun entry hmem => ConstantEntry.map_some_numeric (h entry hmem)
  rw [constantValues, ← Expression.maps_number?.values, ← hentries,
    (Counting.maps_some Counting.ofNumbers).values]

/-- In an enum that is no bit field and whose values are written as integers every constant has a
number. A constant without a value is 0 in the first place. Behind another constant it is one more
than that one exactly when that one is not written as a bit: behind `<< v`, which is `2 ^ v`, it is
`v + 1`, and that is less than one more. -/
theorem sequential_constant_counts_on_iff {entries : List (ConstantEntry Expression)}
    (h : IntegersOnly entries) :
    ∃ numbers : List Nat,
      (constantValues false entries).map Expression.number? = numbers.map some ∧
      (∀ name, entries[0]? = some (.implicit name) → numbers[0]? = some 0) ∧
      (∀ (i : Nat) (name text : String), entries[i]? = some (.assigned name (.integer text)) →
        numbers[i]? = some (numberOf text)) ∧
      (∀ (i : Nat) (name text : String), entries[i]? = some (.shifted name (.integer text)) →
        numbers[i]? = some (2 ^ numberOf text)) ∧
      ∀ (i : Nat) (name : String) (entry : ConstantEntry Expression), entries[i]? = some entry →
        entries[i + 1]? = some (.implicit name) →
        ∃ before after, numbers[i]? = some before ∧ numbers[i + 1]? = some after ∧
          (after = before + 1 ↔ entry.isShifted = false) ∧
          ∀ bit text, entry = .shifted bit (.integer text) →
            after = numberOf text + 1 ∧ after < before + 1 := by
  have hnumeric {i : Nat} {entry : ConstantEntry Expression} (hentry : entries[i]? = some entry) :
      (entries.map (·.numeric))[i]? = some entry.numeric := by
    rw [List.getElem?_map, hentry, Option.map_some]
  have hvalue {i : Nat} {entry : ConstantEntry Expression} (hentry : entries[i]? = some entry) :
      (Counting.ofNumbers.values false (entries.map (·.numeric)))[i]? = some
        (Counting.ofNumbers.valueIn false
          (Counting.stateBehind ((entries.map (·.numeric)).take i)) entry.numeric) :=
    Counting.ofNumbers.getElem?_values false (hnumeric hentry)
  refine ⟨_, h.number?_constantValues false, fun name hentry => hvalue hentry,
    fun i name text hentry => hvalue hentry, fun i name text hentry => hvalue hentry, ?_⟩
  intro i name entry hentry hnext
  obtain ⟨before, after, hbefore, hafter, hiff, hbit⟩ :=
    Counting.ofNumbers_behind (hnumeric hentry) (hnumeric hnext)
  have hshifted : entry.numeric.isShifted = entry.isShifted := ConstantEntry.isShifted_map _ entry
  rw [hshifted] at hiff
  refine ⟨before, after, hbefore, hafter, hiff, ?_⟩
  rintro bit text rfl
  obtain ⟨rfl, rfl⟩ := hbit bit (numberOf text) rfl
  have hless : numberOf text < 2 ^ numberOf text := Nat.lt_two_pow_self
  exact ⟨rfl, Nat.succ_lt_succ hless⟩

/-- `enum E : int { A, B = 0x0f, C, D << 3, F }` -/
def sequentialEntries : List (ConstantEntry Expression) :=
  [.implicit "A", .assigned "B" (.integer "0x0f"), .implicit "C", .shifted "D" (.integer "3"),
    .implicit "F"]

/-- `C` counts on from 15 to 16, but `F` is 4 where `D` is 8. -/
theorem sequentialEntries_count_on :
    IntegersOnly sequentialEntries ∧
    (constantValues false sequentialEntries).map Expression.number? =
      [some 0, some 15, some 16, some 8, some 4] ∧
    ∃ numbers : List Nat,
      (constantValues false sequentialEntries).map Expression.number? = numbers.map some ∧
      (∃ before after, numbers[1]? = some before ∧ numbers[2]? = some after ∧
        after = before + 1) ∧
      ∃ before after, numbers[3]? = some before ∧ numbers[4]? = some after ∧
        after < before + 1 := by
  have hintegers : IntegersOnly sequentialEntries := by
    intro entry hmem value hvalue
    simp only [sequentialEntries, List.mem_cons, List.not_mem_nil, or_false] at hmem
    rcases hmem with rfl | rfl | rfl | rfl | rfl
    · cases hvalue
    · cases hvalue
      exact ⟨_, rfl⟩
    · cases hvalue
    · cases hvalue
      exact ⟨_, rfl⟩
    · cases hvalue
  obtain ⟨numbers, hnumbers, -, -, -, hbehind⟩ := sequential_constant_counts_on_iff hintegers
  obtain ⟨before, after, hbefore, hafter, hiff, -⟩ := hbehind 1 "C" _ rfl rfl
  obtain ⟨before', after', hbefore', hafter', -, hbit⟩ := hbehind 3 "F" _ rfl rfl
  exact ⟨hintegers, by decide +kernel, numbers, hnumbers,
    ⟨before, after, hbefore, hafter, hiff.mpr rfl⟩,
    ⟨before', after', hbefore', hafter', (hbit "D" "3" rfl).2⟩⟩

end QuovaKotlin.Ast

import QuovaKotlin.Ast.Basic

/-!
# Constants by their place

Numbering carries the last explicit value and an offset from entry to entry. Behind any entries the
offset is the distance to the last explicit one, or to the start where there is none, so the value
of every constant can be read off its place in the list. What numbering carries over one entry is
said once, and everything about a whole list follows by induction.
-/

set_option autoImplicit false

namespace QuovaKotlin.Ast

variable {α : Type}

/-- The value that is written with an entry, whichever way it is written. -/
def ConstantEntry.given? : ConstantEntry α → Option α
  | implicit _ => none
  | assigned _ value | shifted _ value => some value

namespace Counting

/-- What numbering carries along: the last explicit value and the offset from it. -/
structure State (α : Type) where
  last : Option α
  offset : Nat

namespace State

def start : State α :=
  ⟨none, 0⟩

/-- The state behind one more entry. -/
def behind (state : State α) (entry : ConstantEntry α) : State α :=
  match entry.given? with
  | none => ⟨state.last, state.offset + 1⟩
  | some value => ⟨some value, 1⟩

theorem behind_of_none {entry : ConstantEntry α} (state : State α) (h : entry.given? = none) :
    state.behind entry = ⟨state.last, state.offset + 1⟩ := by
  rw [behind, h]

theorem behind_of_some {entry : ConstantEntry α} {value : α} (state : State α)
    (h : entry.given? = some value) : state.behind entry = ⟨some value, 1⟩ := by
  rw [behind, h]

theorem offset_behind_le (state : State α) (entry : ConstantEntry α) :
    (state.behind entry).offset ≤ state.offset + 1 := by
  cases h : entry.given? with
  | none => exact Nat.le_of_eq (congrArg State.offset (state.behind_of_none h))
  | some value =>
    rw [state.behind_of_some h]
    exact Nat.le_add_left 1 state.offset

end State

/-- The value of an entry that numbering meets in a given state. -/
def valueIn (count : Counting α) (bitfield : Bool) (state : State α) : ConstantEntry α → α
  | .assigned _ value => value
  | .shifted _ value => count.bit value
  | .implicit _ =>
    let value := count.next state.last state.offset
    if bitfield then count.bit value else value

/-- Numbering from a state on. -/
def valuesIn (count : Counting α) (bitfield : Bool) (state : State α)
    (entries : List (ConstantEntry α)) : List α :=
  count.valuesFrom bitfield state.last state.offset entries

theorem valuesIn_cons (count : Counting α) (bitfield : Bool) (state : State α)
    (entry : ConstantEntry α) (entries : List (ConstantEntry α)) :
    count.valuesIn bitfield state (entry :: entries) =
      count.valueIn bitfield state entry ::
        count.valuesIn bitfield (state.behind entry) entries := by
  cases entry <;> rfl

/-- The state behind all entries of a list. -/
def stateBehind (entries : List (ConstantEntry α)) : State α :=
  entries.foldl State.behind .start

theorem valuesIn_append (count : Counting α) (bitfield : Bool) (state : State α)
    (front rest : List (ConstantEntry α)) :
    count.valuesIn bitfield state (front ++ rest) =
      count.valuesIn bitfield state front ++
        count.valuesIn bitfield (front.foldl State.behind state) rest := by
  induction front generalizing state with
  | nil => rfl
  | cons entry front ih =>
    rw [List.cons_append, valuesIn_cons, ih, valuesIn_cons, List.cons_append, List.foldl_cons]

theorem values_append (count : Counting α) (bitfield : Bool)
    (front rest : List (ConstantEntry α)) :
    count.values bitfield (front ++ rest) =
      count.values bitfield front ++ count.valuesIn bitfield (stateBehind front) rest :=
  count.valuesIn_append bitfield .start front rest

theorem length_valuesIn (count : Counting α) (bitfield : Bool) (state : State α)
    (entries : List (ConstantEntry α)) :
    (count.valuesIn bitfield state entries).length = entries.length := by
  induction entries generalizing state with
  | nil => rfl
  | cons entry entries ih => rw [valuesIn_cons, List.length_cons, ih, List.length_cons]

theorem length_values (count : Counting α) (bitfield : Bool) (entries : List (ConstantEntry α)) :
    (count.values bitfield entries).length = entries.length :=
  count.length_valuesIn bitfield .start entries

/-- The value at a place is decided by the entry there and the state behind those in front. -/
theorem getElem?_values (count : Counting α) (bitfield : Bool) {entries : List (ConstantEntry α)}
    {i : Nat} {entry : ConstantEntry α} (h : entries[i]? = some entry) :
    (count.values bitfield entries)[i]? =
      some (count.valueIn bitfield (stateBehind (entries.take i)) entry) := by
  obtain ⟨hi, hentry⟩ := List.getElem?_eq_some_iff.mp h
  have hsplit : entries = entries.take i ++ entry :: entries.drop (i + 1) := by
    rw [← hentry, ← List.drop_eq_getElem_cons hi, List.take_append_drop]
  have hlength : (count.values bitfield (entries.take i)).length = i := by
    rw [length_values, List.length_take, Nat.min_eq_left (Nat.le_of_lt hi)]
  conv => lhs; rw [hsplit, values_append, valuesIn_cons]
  rw [List.getElem?_append_right (Nat.le_of_eq hlength), hlength, Nat.sub_self,
    List.getElem?_cons_zero]

theorem foldl_behind_of_none {entries : List (ConstantEntry α)}
    (h : ∀ entry ∈ entries, entry.given? = none) (state : State α) :
    entries.foldl State.behind state = ⟨state.last, state.offset + entries.length⟩ := by
  induction entries generalizing state with
  | nil => rfl
  | cons entry entries ih =>
    obtain ⟨hentry, hrest⟩ := List.forall_mem_cons.mp h
    rw [List.foldl_cons, state.behind_of_none hentry, ih hrest, List.length_cons,
      Nat.add_assoc, Nat.add_comm 1]

theorem stateBehind_of_given {front back : List (ConstantEntry α)} {entry : ConstantEntry α}
    {value : α} (hentry : entry.given? = some value)
    (hback : ∀ entry ∈ back, entry.given? = none) :
    stateBehind (front ++ entry :: back) = ⟨some value, back.length + 1⟩ := by
  rw [stateBehind, List.foldl_append, List.foldl_cons, State.behind_of_some _ hentry,
    foldl_behind_of_none hback, Nat.add_comm]

theorem offset_foldl_le (entries : List (ConstantEntry α)) (state : State α) :
    (entries.foldl State.behind state).offset ≤ state.offset + entries.length := by
  induction entries generalizing state with
  | nil => exact Nat.le_refl _
  | cons entry entries ih =>
    have hstep := state.offset_behind_le entry
    have hrest := ih (state.behind entry)
    rw [List.foldl_cons, List.length_cons]
    omega

theorem offset_stateBehind_le (entries : List (ConstantEntry α)) :
    (stateBehind entries).offset ≤ entries.length := by
  have h := offset_foldl_le entries .start
  rwa [show (State.start : State α).offset = 0 from rfl, Nat.zero_add] at h

/-- The value written with the entry at a place. -/
def givenAt (entries : List (ConstantEntry α)) (i : Nat) : Option α :=
  entries[i]?.bind ConstantEntry.given?

/-- The entry at `j` is the last in front of `i` that has a value, and `value` is that value. -/
structure LastGiven (entries : List (ConstantEntry α)) (i j : Nat) (value : α) : Prop where
  lt : j < i
  given : givenAt entries j = some value
  after : ∀ k, j < k → k < i → givenAt entries k = none

theorem given?_of_mem_take {entries : List (ConstantEntry α)} {i : Nat}
    (h : ∀ k < i, givenAt entries k = none) : ∀ entry ∈ entries.take i, entry.given? = none := by
  intro entry hmem
  obtain ⟨k, hk, rfl⟩ := List.mem_take_iff_getElem.mp hmem
  have hnone := h k (by omega)
  rwa [givenAt, List.getElem?_eq_getElem (by omega), Option.bind_some] at hnone

theorem stateBehind_take_of_none {entries : List (ConstantEntry α)} {i : Nat}
    (hi : i ≤ entries.length) (h : ∀ k < i, givenAt entries k = none) :
    stateBehind (entries.take i) = ⟨none, i⟩ := by
  rw [stateBehind, foldl_behind_of_none (given?_of_mem_take h), List.length_take,
    Nat.min_eq_left hi, State.start, Nat.zero_add]

theorem stateBehind_take_of_lastGiven {entries : List (ConstantEntry α)} {i j : Nat} {value : α}
    (hi : i ≤ entries.length) (h : LastGiven entries i j value) :
    stateBehind (entries.take i) = ⟨some value, i - j⟩ := by
  obtain ⟨entry, hentry, hgiven⟩ := Option.bind_eq_some_iff.mp h.given
  obtain ⟨hj, rfl⟩ := List.getElem?_eq_some_iff.mp hentry
  have hlt := h.lt
  have hsplit : entries.take i =
      entries.take j ++ entries[j] :: (entries.drop (j + 1)).take (i - (j + 1)) := by
    rw [← List.take_succ_cons, ← List.drop_eq_getElem_cons hj, ← List.take_add]
    congr 1
    omega
  have hback : ∀ entry ∈ (entries.drop (j + 1)).take (i - (j + 1)), entry.given? = none := by
    refine given?_of_mem_take fun k hk => ?_
    rw [givenAt, List.getElem?_drop]
    exact h.after _ (by omega) (by omega)
  have hlength : ((entries.drop (j + 1)).take (i - (j + 1))).length + 1 = i - j := by
    rw [List.length_take, List.length_drop]
    omega
  rw [hsplit, stateBehind_of_given hgiven hback, hlength]

end Counting

open Counting (State stateBehind givenAt LastGiven)

/-- In a bit field an implicit value is the position of a bit. -/
def Expression.positioned (bitfield : Bool) (value : Expression) : Expression :=
  if bitfield then .binary (.shift .left) (.integer "1") value else value

/-- Every constant has a value that its place decides. An explicit one has its own expression or the
bit of it; an implicit one counts from the start, or from the last explicit one in front of it. The
offset that numbering carries from any entries to the rest is at most the number of entries. -/
theorem constantValues_by_place (bitfield : Bool) (entries : List (ConstantEntry Expression)) :
    (constantValues bitfield entries).length = entries.length ∧
    (∀ (i : Nat) (name : String) (value : Expression), entries[i]? = some (.assigned name value) →
      (constantValues bitfield entries)[i]? = some value) ∧
    (∀ (i : Nat) (name : String) (value : Expression), entries[i]? = some (.shifted name value) →
      (constantValues bitfield entries)[i]? =
        some (.binary (.shift .left) (.integer "1") value)) ∧
    (∀ (i : Nat) (name : String), entries[i]? = some (.implicit name) →
      (∀ k < i, givenAt entries k = none) →
      (constantValues bitfield entries)[i]? =
        some (Expression.positioned bitfield (.integer (toString i)))) ∧
    (∀ (i j : Nat) (name : String) (value : Expression), entries[i]? = some (.implicit name) →
      LastGiven entries i j value →
      (constantValues bitfield entries)[i]? =
        some (Expression.positioned bitfield
          (.binary (.sum .plus) value (.integer (toString (i - j)))))) ∧
    ∀ front rest, entries = front ++ rest →
      constantValues bitfield entries = constantValues bitfield front ++
          Expression.counting.valuesIn bitfield (stateBehind front) rest ∧
        (stateBehind front).offset ≤ entries.length := by
  have hvalue : ∀ {i entry}, entries[i]? = some entry → (constantValues bitfield entries)[i]? =
      some (Expression.counting.valueIn bitfield (stateBehind (entries.take i)) entry) :=
    fun h => Expression.counting.getElem?_values bitfield h
  have hlt : ∀ {i entry}, entries[i]? = some entry → i ≤ entries.length :=
    fun h => Nat.le_of_lt (List.getElem?_eq_some_iff.mp h).1
  refine ⟨Expression.counting.length_values bitfield entries, fun i name value h => hvalue h,
    fun i name value h => hvalue h, ?_, ?_, ?_⟩
  · intro i name h hnone
    rw [hvalue h, Counting.stateBehind_take_of_none (hlt h) hnone]
    rfl
  · intro i j name value h hlast
    rw [hvalue h, Counting.stateBehind_take_of_lastGiven (hlt h) hlast]
    rfl
  · rintro front rest rfl
    refine ⟨Expression.counting.values_append bitfield front rest, ?_⟩
    have hoffset := Counting.offset_stateBehind_le front
    rw [List.length_append]
    omega

/-- `bitfield enum Flags : int { A, B, C << x, D, E }` -/
def flagEntries : List (ConstantEntry Expression) :=
  [.implicit "A", .implicit "B", .shifted "C" (.identifier "x"), .implicit "D", .implicit "E"]

theorem flagEntries_by_place :
    (constantValues true flagEntries).length = 5 ∧
    (constantValues true flagEntries)[1]? =
      some (.binary (.shift .left) (.integer "1") (.integer "1")) ∧
    (constantValues true flagEntries)[2]? =
      some (.binary (.shift .left) (.integer "1") (.identifier "x")) ∧
    (constantValues true flagEntries)[4]? =
      some (.binary (.shift .left) (.integer "1")
        (.binary (.sum .plus) (.identifier "x") (.integer "2"))) ∧
    (stateBehind (flagEntries.take 4)).offset ≤ 5 := by
  obtain ⟨hlength, -, hshifted, hstart, hlast, hoffset⟩ := constantValues_by_place true flagEntries
  have hnone : ∀ k < 1, givenAt flagEntries k = none := by
    intro k hk
    obtain rfl : k = 0 := by omega
    rfl
  have hgiven : LastGiven flagEntries 4 2 (.identifier "x") := by
    refine ⟨by decide, rfl, fun k hlow hhigh => ?_⟩
    obtain rfl : k = 3 := by omega
    rfl
  exact ⟨hlength, hstart 1 "B" rfl hnone, hshifted 2 "C" _ rfl, hlast 4 2 "E" _ rfl hgiven,
    (hoffset (flagEntries.take 4) (flagEntries.drop 4) rfl).2⟩

end QuovaKotlin.Ast

/-!
# Numbering of enum constants

A constant without a value counts on from the last explicit one: the offset starts at 0 and starts
again at 1 behind each explicit value. In a bit field every such number is the position of a bit.
The numbering is written once, over any kind of value that can be counted.
-/

set_option autoImplicit false

namespace QuovaKotlin.Ast

/-- A constant whose value is not given, given as `= v`, or given as the bit `<< v`. -/
inductive ConstantEntry (α : Type)
  | implicit (name : String)
  | assigned (name : String) (value : α)
  | shifted (name : String) (value : α)

def ConstantEntry.name {α : Type} : ConstantEntry α → String
  | implicit name => name
  | assigned name _ => name
  | shifted name _ => name

/-- What numbering needs of the values it makes. -/
structure Counting (α : Type) where
  number : Nat → α
  add : α → Nat → α
  bit : α → α

namespace Counting

variable {α : Type}

/-- The value `offset` steps behind the last explicit one. -/
def next (count : Counting α) (last : Option α) (offset : Nat) : α :=
  match last with
  | none => count.number offset
  | some a => count.add a offset

/-- One value for each entry, given the last explicit value and the offset from it. -/
def valuesFrom (count : Counting α) (bitfield : Bool) :
    Option α → Nat → List (ConstantEntry α) → List α
  | _, _, [] => []
  | _, _, .assigned _ a :: entries => a :: valuesFrom count bitfield (some a) 1 entries
  | _, _, .shifted _ a :: entries => count.bit a :: valuesFrom count bitfield (some a) 1 entries
  | last, offset, .implicit _ :: entries =>
    let value := count.next last offset
    (if bitfield then count.bit value else value) ::
      valuesFrom count bitfield last (offset + 1) entries

/-- One value for each entry, in order. -/
def values (count : Counting α) (bitfield : Bool) (entries : List (ConstantEntry α)) : List α :=
  count.valuesFrom bitfield none 0 entries

end Counting

end QuovaKotlin.Ast

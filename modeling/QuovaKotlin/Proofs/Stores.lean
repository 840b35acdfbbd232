/-!
# Stores of integer variables

The state over which statements and assignments run. A variable that is declared inside hides those
of its name outside, and a write goes to the innermost one.
-/

set_option autoImplicit false

namespace QuovaKotlin.Execution

/-- Variables with their values. The innermost variable of a name hides the others. -/
abbrev Store := List (String × Int)

namespace Store

def get? (store : Store) (name : String) : Option Int :=
  (store.find? (·.1 == name)).map (·.2)

def set : Store → String → Int → Store
  | [], _, _ => []
  | (name, value) :: rest, target, new =>
    if name == target then (name, new) :: rest else (name, value) :: set rest target new

variable {store : Store} {name target : String} {value old new : Int}

theorem get?_cons_of_ne (h : name ≠ target) :
    get? ((name, value) :: store) target = store.get? target := by
  have hne : (name == target) = false := beq_eq_false_iff_ne.mpr h
  rw [get?, List.find?_cons_of_neg (by simp [hne])]
  rfl

theorem get?_cons_self : get? ((name, value) :: store) name = some value := by
  rw [get?, List.find?_cons_of_pos (by simp)]
  rfl

theorem set_cons_of_ne (h : name ≠ target) :
    set ((name, value) :: store) target new = (name, value) :: store.set target new := by
  have hne : (name == target) = false := beq_eq_false_iff_ne.mpr h
  rw [set, hne]
  rfl

/-- A variable of the store holds what was written to it last. -/
theorem get?_set_self (h : store.get? target = some old) :
    (store.set target new).get? target = some new := by
  induction store with
  | nil => cases h
  | cons binding rest ih =>
    obtain ⟨name, value⟩ := binding
    by_cases hname : name = target
    · subst hname
      rw [set, beq_self_eq_true, if_pos rfl]
      exact get?_cons_self
    · rw [get?_cons_of_ne hname] at h
      rw [set_cons_of_ne hname, get?_cons_of_ne hname]
      exact ih h

end Store

/-- The number that a row of digits spells. -/
def decimal (text : String) : Int :=
  text.toList.foldl (fun value digit => 10 * value + (digit.toNat - '0'.toNat : Nat)) 0

end QuovaKotlin.Execution

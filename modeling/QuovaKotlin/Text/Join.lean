/-!
# Joining texts

Texts with a separator between each two neighbours, and runs of one text.
-/

set_option autoImplicit false

namespace QuovaKotlin.Text

/-- The texts in order, with `separator` between neighbours. -/
def joinWith (separator : String) : List String → String
  | [] => ""
  | [s] => s
  | s :: rest => s ++ separator ++ joinWith separator rest

/-- The texts in order, separated by a comma and a blank. -/
def commas (texts : List String) : String :=
  joinWith ", " texts

/-- The texts in order, each on a line of its own, without a break behind the last. -/
def lines (texts : List String) : String :=
  joinWith "\n" texts

/-- Every text followed by `terminator`. -/
def endEach (terminator : String) : List String → String
  | [] => ""
  | s :: rest => s ++ terminator ++ endEach terminator rest

theorem endEach_append (terminator : String) (front back : List String) :
    endEach terminator (front ++ back) = endEach terminator front ++ endEach terminator back := by
  induction front with
  | nil => rw [List.nil_append, endEach, String.empty_append]
  | cons s front ih => rw [List.cons_append, endEach, endEach, ih, ← String.append_assoc]

/-- The texts of a list, made by a recursion over the list. -/
theorem each_eq_map {α : Type} {text : α → String} {texts : List α → List String}
    (hnil : texts [] = []) (hcons : ∀ x xs, texts (x :: xs) = text x :: texts xs) (xs : List α) :
    texts xs = xs.map text := by
  induction xs with
  | nil => exact hnil
  | cons x xs ih => rw [hcons, ih, List.map_cons]

/-- `n` copies of `s`. -/
def copies : Nat → String → String
  | 0, _ => ""
  | n + 1, s => s ++ copies n s

/-- `s` if `condition` holds, and nothing otherwise. -/
def onlyIf (condition : Bool) (s : String) : String :=
  if condition then s else ""

end QuovaKotlin.Text

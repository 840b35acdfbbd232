/-!
# JSON values

Values without fractions. The fields of an object are kept in the order they are given.
-/

set_option autoImplicit false

namespace QuovaKotlin

inductive Json
  | null
  | bool (value : Bool)
  | number (value : Int)
  | text (value : String)
  | list (items : List Json)
  | object (fields : List (String × Json))

namespace Json

/-- An object with one field, which names the alternative that `value` belongs to. -/
def tagged (tag : String) (value : Json) : Json :=
  object [(tag, value)]

/-- The value, or null. -/
def ofOption {α : Type} (f : α → Json) : Option α → Json
  | none => null
  | some a => f a

def ofTexts (texts : List String) : Json :=
  list (texts.map text)

end Json

end QuovaKotlin

/-!
# Choices

Where a place takes one of two things, each of them may be looked for, and the first one found is
taken.
-/

set_option autoImplicit false

namespace QuovaKotlin

variable {α β : Type}

/-- The first of two values that is present. -/
def firstPresent : Option α → Option β → Option (α ⊕ β)
  | some a, _ => some (.inl a)
  | none, some b => some (.inr b)
  | none, none => none

/-- The first of two values that is present, or else `fallback` as the first. -/
def firstPresentOr (fallback : α) (a : Option α) (b : Option β) : α ⊕ β :=
  (firstPresent a b).getD (.inl fallback)

end QuovaKotlin

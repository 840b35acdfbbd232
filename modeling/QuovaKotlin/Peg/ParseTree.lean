/-!
# Parse trees

A rule that matched leaves a token, which holds the matched text, or a node, which holds the trees
of the rules inside it. Spans count characters from the start of the input.
-/

set_option autoImplicit false

namespace QuovaKotlin.Peg

/-- The characters from `start` up to `stop`, `stop` excluded. -/
structure Span where
  start : Nat
  stop : Nat
  deriving DecidableEq, Repr, Inhabited

/-- The trace of a rule that matched. -/
inductive ParseTree (ρ : Type)
  | token (rule : ρ) (span : Span) (text : String)
  | node (rule : ρ) (span : Span) (children : List (ParseTree ρ))

namespace ParseTree

variable {ρ : Type}

def rule : ParseTree ρ → ρ
  | token r _ _ => r
  | node r _ _ => r

def span : ParseTree ρ → Span
  | token _ s _ => s
  | node _ s _ => s

/-- The text of a token; a node has none of its own. -/
def text : ParseTree ρ → String
  | token _ _ t => t
  | node .. => ""

def children : ParseTree ρ → List (ParseTree ρ)
  | token .. => []
  | node _ _ ts => ts

mutual

/-- The number of levels of a tree. -/
def height : ParseTree ρ → Nat
  | token .. => 1
  | node _ _ ts => heightAll ts + 1

/-- The largest height in a list of trees. -/
def heightAll : List (ParseTree ρ) → Nat
  | [] => 0
  | t :: ts => max t.height (heightAll ts)

end

section Children

variable [DecidableEq ρ]

/-- The first child made by rule `r`. -/
def child? (t : ParseTree ρ) (r : ρ) : Option (ParseTree ρ) :=
  t.children.find? (·.rule = r)

/-- All children made by rule `r`, in order. -/
def childrenOf (t : ParseTree ρ) (r : ρ) : List (ParseTree ρ) :=
  t.children.filter (·.rule = r)

/-- Whether some child was made by rule `r`. -/
def has (t : ParseTree ρ) (r : ρ) : Bool :=
  (t.child? r).isSome

end Children

end ParseTree

end QuovaKotlin.Peg

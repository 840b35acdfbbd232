/-!
# Parsing expressions and grammars

A grammar is a value: every rule has a kind and a body, and a body is a parsing expression over
rule names. Nothing here runs a grammar; `QuovaKotlin.Peg.Run` does.
-/

set_option autoImplicit false

namespace QuovaKotlin.Peg

/-- Sets of characters that a terminal may ask for. All but `any` hold ASCII characters only. -/
inductive CharClass
  | any
  | digit
  | hexDigit
  | letter
  | alphanumeric
  deriving DecidableEq, Repr

def CharClass.accepts : CharClass → Char → Bool
  | any, _ => true
  | digit, c => c.isDigit
  | hexDigit, c => c.isDigit || ('a' ≤ c && c ≤ 'f') || ('A' ≤ c && c ≤ 'F')
  | letter, c => c.isAlpha
  | alphanumeric, c => c.isAlphanum

/--
Parsing expressions over rules `ρ`. Choice is ordered and repetition is greedy. `more p` is the tail
of a repetition: layout and then `p`, any number of times.
-/
inductive Pattern (ρ : Type)
  | text (chars : List Char)
  | char (cls : CharClass)
  | start
  | stop
  | rule (r : ρ)
  | seq (first second : Pattern ρ)
  | choice (first second : Pattern ρ)
  | star (body : Pattern ρ)
  | more (body : Pattern ρ)
  | optional (body : Pattern ρ)
  | ahead (body : Pattern ρ)
  | absent (body : Pattern ρ)
  deriving DecidableEq, Repr

namespace Pattern

variable {ρ : Type}

/-- The literal text `s`. -/
def lit (s : String) : Pattern ρ :=
  .text s.toList

/-- The patterns of a list one after the other; the empty list matches the empty text. -/
def all : List (Pattern ρ) → Pattern ρ
  | [] => .text []
  | [p] => p
  | p :: ps => .seq p (all ps)

/-- The first pattern of a list that matches; the empty list matches nothing. -/
def oneOf : List (Pattern ρ) → Pattern ρ
  | [] => .absent (.text [])
  | [p] => p
  | p :: ps => .choice p (oneOf ps)

/-- One or more times `p`. -/
def plus (p : Pattern ρ) : Pattern ρ :=
  .seq p (.star p)

/-- One or more times `p`, with `separator` between. -/
def sepBy (p : Pattern ρ) (separator : String) : Pattern ρ :=
  .seq p (.star (.seq (lit separator) p))

/-- The first of the literal texts that matches. -/
def words (texts : List String) : Pattern ρ :=
  oneOf (texts.map lit)

/-- The number of constructors of a pattern. -/
def size : Pattern ρ → Nat
  | .text _ | .char _ | .start | .stop | .rule _ => 1
  | .seq p q | .choice p q => p.size + q.size + 1
  | .star p | .more p | .optional p | .ahead p | .absent p => p.size + 1

/-- A line break: `\n`, `\r\n` or `\r`. -/
def newline : Pattern ρ :=
  words ["\n", "\r\n", "\r"]

/-- Any one character at which `p` does not match. -/
def anyExcept (p : Pattern ρ) : Pattern ρ :=
  .seq (.absent p) (.char .any)

end Pattern

/--
How a rule treats blanks and inner rules. A `normal` rule skips layout between its parts. The
parts of an `atomic` rule stand side by side and its inner rules leave no trees. A `compound` rule
skips no layout either, but keeps the trees of its inner rules.
-/
inductive RuleKind
  | normal
  | atomic
  | compound
  deriving DecidableEq, Repr

/-- A grammar over rules `ρ`, with the names under which diagnostics list the rules. -/
structure Grammar (ρ : Type) where
  kind : ρ → RuleKind
  body : ρ → Pattern ρ
  name : ρ → String
  /-- Every rule once, in the order in which diagnostics list them. -/
  rules : List ρ

/-- The total size of all bodies, each counted with the rule that owns it. -/
def Grammar.weight {ρ : Type} (g : Grammar ρ) : Nat :=
  g.rules.foldr (fun r n => (g.body r).size + 1 + n) 0

end QuovaKotlin.Peg

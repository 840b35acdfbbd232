import QuovaKotlin.Peg.ParseTree
import QuovaKotlin.Problem
import QuovaKotlin.Text.Bytes

/-!
# Reading parse trees

Access to the children of a parse tree. The grammars provide every child that is asked for in this
library; asking for one that is absent is an error all the same, so that reading is total.
-/

set_option autoImplicit false

namespace QuovaKotlin.Reading

open Peg (ParseTree)

/-- Rules have names for diagnostics. -/
class Labeled (ρ : Type) where
  label : ρ → String

/-- Why a parse tree cannot be read. -/
inductive ReadingError
  | missing (message : String) (span : Peg.Span)
  | unsupported (construct : Unsupported) (span : Peg.Span)
  deriving DecidableEq, Repr

/-- The bytes of a span. -/
def byteRange (source : String) (span : Peg.Span) : ByteRange :=
  ⟨Text.byteOffset source span.start, Text.byteOffset source span.stop⟩

/-- The problem that an error in a tree of `source` amounts to. -/
def ReadingError.problem (source : String) : ReadingError → Problem
  | missing message span => .missing message (byteRange source span)
  | unsupported construct span => .unsupported construct (byteRange source span)

abbrev Read (α : Type) := Except ReadingError α

section

variable {ρ : Type} [DecidableEq ρ] [Labeled ρ] {α : Type}

/-- A child that should be there is not. -/
def missing (node : ParseTree ρ) (what : String) : Read α :=
  .error (.missing ("expected " ++ what ++ " in " ++ Labeled.label node.rule) node.span)

/-- A node stands where it should not. -/
def unexpected (node : ParseTree ρ) : Read α :=
  .error (.missing ("unexpected " ++ Labeled.label node.rule) node.span)

def unsupported (node : ParseTree ρ) (construct : Unsupported) : Read α :=
  .error (.unsupported construct node.span)

/-- The first child made by `rule`. -/
def required (node : ParseTree ρ) (rule : ρ) : Read (ParseTree ρ) :=
  match node.child? rule with
  | some child => .ok child
  | none => missing node (Labeled.label rule)

/-- The first child, whatever it is. -/
def first (node : ParseTree ρ) : Read (ParseTree ρ) :=
  match node.children with
  | child :: _ => .ok child
  | [] => missing node "child node"

/-- Reads the first child made by `rule`. -/
def one (node : ParseTree ρ) (rule : ρ) (read : ParseTree ρ → Read α) : Read α := do
  read (← required node rule)

/-- Reads the first child made by `rule`, if there is one. -/
def atMostOne (node : ParseTree ρ) (rule : ρ) (read : ParseTree ρ → Read α) : Read (Option α) :=
  match node.child? rule with
  | some child => some <$> read child
  | none => .ok none

/-- Reads all children made by `rule`, in order. -/
def each (node : ParseTree ρ) (rule : ρ) (read : ParseTree ρ → Read α) : Read (List α) :=
  (node.childrenOf rule).mapM read

/-- Reads the list under the first child made by `rule`; without one it is empty. -/
def listUnder (node : ParseTree ρ) (rule : ρ) (read : ParseTree ρ → Read (List α)) :
    Read (List α) := do
  return (← atMostOne node rule read).getD []

/-- The text of the first child made by `rule`, if there is one. -/
def textOf? (node : ParseTree ρ) (rule : ρ) : Option String :=
  (node.child? rule).map (·.text)

/-- The text of the first child made by `rule`. -/
def textOf (node : ParseTree ρ) (rule : ρ) : Read String :=
  (·.text) <$> required node rule

/-- The meaning of a token by its text. -/
def meaning (table : String → Option α) (node : ParseTree ρ) : Read α :=
  match table node.text with
  | some value => .ok value
  | none => unexpected node

end

end QuovaKotlin.Reading

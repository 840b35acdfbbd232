import QuovaKotlin.Yaml.Glyph

/-!
# Gaps inside scalars

Blanks and line breaks between the words of a plain or quoted scalar are folded: one line break
counts as a space, and of several the first counts for nothing.
-/

set_option autoImplicit false

namespace QuovaKotlin.Yaml

/-- The blanks and line breaks behind a word. -/
structure Gap where
  /-- The blanks of a gap inside a line. -/
  blanks : List Char := []
  /-- Whether the gap reaches beyond the line. -/
  crossed : Bool := false
  /-- The first line break, unless it was escaped. -/
  first : Option Char := none
  /-- The other line breaks. -/
  others : List Char := []
  deriving DecidableEq, Repr

namespace Gap

/-- Whether there is no gap. -/
def isEmpty (gap : Gap) : Bool :=
  gap.blanks.isEmpty && ! gap.crossed

/-- The gap behind an escaped line break. -/
def escaped : Gap where
  crossed := true

/-- The gap with one glyph more. Blanks at both ends of a line do not count. -/
def add (gap : Gap) (g : Glyph) : Gap :=
  if g.isBreak then
    if gap.crossed then { gap with others := gap.others ++ [g.char] }
    else { crossed := true, first := some g.char }
  else if gap.crossed then gap
  else { gap with blanks := gap.blanks ++ [g.char] }

/-- What the gap counts as between two words. -/
def text (gap : Gap) : List Char :=
  if ! gap.crossed then gap.blanks
  else
    match gap.first with
    | none => gap.others
    | some '\n' => if gap.others.isEmpty then [' '] else gap.others
    | some c => c :: gap.others

end Gap

end QuovaKotlin.Yaml

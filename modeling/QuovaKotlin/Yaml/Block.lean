import QuovaKotlin.Yaml.Inline

/-!
# Block scalars

A block scalar is made of the lines behind its header, as far as they are indented. A literal one
keeps its line breaks; a folded one joins lines, but for those that start with a blank.
-/

set_option autoImplicit false

namespace QuovaKotlin.Yaml

/-- Which of the line breaks at the end of a block scalar count. -/
inductive Chomping
  | clip
  | strip
  | keep
  deriving DecidableEq, Repr

def Chomping.ofChar? : Char → Option Chomping
  | '-' => some .strip
  | '+' => some .keep
  | _ => none

/-- How a block scalar is to be read. -/
structure Header where
  folded : Bool
  chomping : Chomping := .clip
  /-- How much further right than its surroundings it is, if the header says so. -/
  increment : Option Nat := none
  deriving DecidableEq, Repr

def readChomping (header : Header) : Glyphs → Header × Glyphs
  | [] => (header, [])
  | g :: rest =>
    match Chomping.ofChar? g.char with
    | some chomping => ({ header with chomping }, rest)
    | none => (header, g :: rest)

/-- Reads a digit of a header, which must not be zero. -/
def readIncrement (header : Header) : Glyphs → Option (Header × Glyphs)
  | [] => some (header, [])
  | g :: rest =>
    if g.char == '0' then none
    else if g.char.isDigit then
      some ({ header with increment := some (g.char.toNat - '0'.toNat) }, rest)
    else some (header, g :: rest)

/-- Reads a header up to the end of its line; its two parts may stand in either order. -/
def readHeader (folded : Bool) (input : Glyphs) : Option (Header × Glyphs) := do
  let (header, input) ←
    if atAny ['-', '+'] input then
      let (header, input) := readChomping { folded } input
      readIncrement header input
    else
      let (header, input) ← readIncrement { folded } input
      if header.increment.isSome then pure (readChomping header input) else pure (header, input)
  return (header, ← nextLine? input)

/--
The furthest column that is reached by spaces, up to the first line that holds anything else. A tab
must not open that line.
-/
def spaceWidth (furthest : Nat) : Glyphs → Option Nat
  | [] => some furthest
  | g :: rest =>
    if g.char == ' ' then spaceWidth (max furthest (g.column + 1)) rest
    else if g.char == '\t' then none
    else if g.isBreak then spaceWidth furthest rest
    else some furthest

/-- The column of a block scalar in surroundings that ask for a least column. -/
def blockIndent? (header : Header) (least : Nat) (input : Glyphs) : Option Nat :=
  match header.increment with
  | some increment => some (least - 1 + increment)
  | none => (spaceWidth 0 input).map fun width => max width (max least 1)

/-- The part of a block scalar that has been read. -/
structure BlockText where
  /-- The text, latest character first. -/
  text : List Char := []
  /-- The line break behind the last line. -/
  first : List Char := []
  /-- The line breaks of the empty lines behind it. -/
  others : List Char := []
  /-- Whether the last line starts with a blank. -/
  startsBlank : Bool := false
  /-- Whether the line goes on. -/
  inside : Bool := false
  deriving DecidableEq, Repr

/-- What stands for the line breaks between the last line and one that starts with a glyph. -/
def BlockText.joint (b : BlockText) (folded : Bool) (g : Glyph) : List Char :=
  if folded && b.first == ['\n'] && ! b.startsBlank && ! g.isBlank then
    if b.others.isEmpty then [' '] else b.others
  else b.first ++ b.others

/-- Begins a line. -/
def BlockText.begin (b : BlockText) (folded : Bool) (g : Glyph) : BlockText where
  text := g.char :: addText b.text (b.joint folded g)
  startsBlank := g.isBlank
  inside := true

/-- The text of a block scalar that has ended. -/
def BlockText.finish (b : BlockText) : Chomping → String
  | .strip => String.ofList b.text.reverse
  | .clip => String.ofList (addText b.text b.first).reverse
  | .keep => String.ofList (addText b.text (b.first ++ b.others)).reverse

/-- Reads lines that are indented to a column; only spaces may be in front of that column. -/
def readLines (folded : Bool) (indent : Nat) (b : BlockText) :
    Glyphs → Option (BlockText × Glyphs)
  | [] => some (b, [])
  | g :: rest =>
    if b.inside then
      if g.isBreak then readLines folded indent { b with first := [g.char], inside := false } rest
      else readLines folded indent { b with text := g.char :: b.text } rest
    else if g.isBreak then
      readLines folded indent { b with others := b.others ++ [g.char] } rest
    else if g.column < indent then
      if g.char == ' ' then readLines folded indent b rest
      else if g.char == '\t' then none
      else some (b, g :: rest)
    else readLines folded indent (b.begin folded g) rest

/-- Reads a block scalar behind the character that opens it. -/
def readBlock (folded : Bool) (least : Nat) (input : Glyphs) : Option (String × Glyphs) := do
  let (header, input) ← readHeader folded input
  let indent ← blockIndent? header least input
  let (block, rest) ← readLines folded indent {} input
  return (block.finish header.chomping, rest)

end QuovaKotlin.Yaml

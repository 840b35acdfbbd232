/-!
# Glyphs

A text is read as a list of characters that know where they stand. A line break is one glyph,
however it is written.
-/

set_option autoImplicit false

namespace QuovaKotlin.Yaml

/-- A character with its place in the text. -/
structure Glyph where
  char : Char
  /-- The number of characters in front. -/
  index : Nat
  line : Nat
  column : Nat
  deriving DecidableEq, Repr

/-- The glyphs that are left to read. -/
abbrev Glyphs := List Glyph

def isBlank (c : Char) : Bool :=
  c == ' ' || c == '\t'

/-- The characters that end a line. -/
def isBreak (c : Char) : Bool :=
  [0x0A, 0x0D, 0x85, 0x2028, 0x2029].contains c.toNat

/-- The characters that a text may hold; most control characters are not among them. -/
def isPrintable (c : Char) : Bool :=
  let n := c.toNat
  c == '\t' || isBreak c || (0x20 ≤ n && n ≤ 0x7E) || (0xA0 ≤ n && n ≤ 0xFFFD) || 0x10000 ≤ n

/-- The mark of the byte order, which may open a line. -/
def isOrderMark (c : Char) : Bool :=
  c.toNat == 0xFEFF

/-- The characters of the names of anchors, tags and directives. -/
def isWordChar (c : Char) : Bool :=
  c.isAlphanum || c == '-' || c == '_'

/-- The characters that mean something between braces and brackets. -/
def isFlowMark (c : Char) : Bool :=
  [',', '[', ']', '{', '}'].contains c

/-- A line break as it counts in a scalar; the separators of lines and paragraphs are kept. -/
def unifyBreak (c : Char) : Char :=
  if c.toNat == 0x2028 || c.toNat == 0x2029 then c else '\n'

/-- The glyphs of characters that start at a place. -/
def glyphsFrom (index line column : Nat) : List Char → Glyphs
  | [] => []
  | '\r' :: '\n' :: chars =>
    ⟨'\n', index, line, column⟩ :: glyphsFrom (index + 2) (line + 1) 0 chars
  | c :: chars =>
    if isBreak c then
      ⟨unifyBreak c, index, line, column⟩ :: glyphsFrom (index + 1) (line + 1) 0 chars
    else ⟨c, index, line, column⟩ :: glyphsFrom (index + 1) line (column + 1) chars

/-- The glyphs of a text, unless it holds a character that no text may hold. -/
def glyphs? (text : String) : Option Glyphs :=
  if text.toList.all isPrintable then some (glyphsFrom 0 0 0 text.toList) else none

namespace Glyph

def isBlank (g : Glyph) : Bool :=
  Yaml.isBlank g.char

def isBreak (g : Glyph) : Bool :=
  Yaml.isBreak g.char

/-- Whether a glyph separates words. -/
def isGap (g : Glyph) : Bool :=
  g.isBlank || g.isBreak

end Glyph

/-- Whether a blank, a line break or the end comes next. -/
def atGap (input : Glyphs) : Bool :=
  input.head?.all Glyph.isGap

/-- Whether one of some characters comes next. -/
def atAny (chars : List Char) (input : Glyphs) : Bool :=
  input.head?.any fun g => chars.contains g.char

/-- Whether a line that separates documents starts here. -/
def atMark (mark : Char) (input : Glyphs) : Bool :=
  input.head?.any (·.column == 0) && (input.take 3).map (·.char) == [mark, mark, mark] &&
    atGap (input.drop 3)

/-- Whether a line starts here that begins or ends a document. -/
def atAnyMark (input : Glyphs) : Bool :=
  atMark '-' input || atMark '.' input

/-- The characters that come next, as far as they fulfil a condition. -/
def takeChars (p : Char → Bool) (input : Glyphs) : List Char :=
  (input.takeWhile fun g => p g.char).map (·.char)

/-- What is behind the characters that fulfil a condition. -/
def dropChars (p : Char → Bool) (input : Glyphs) : Glyphs :=
  input.dropWhile fun g => p g.char

/-- The next line, if only blanks and a comment are in the way. -/
def nextLine? (input : Glyphs) : Option Glyphs :=
  let input := dropChars isBlank input
  match if atAny ['#'] input then dropChars (! isBreak ·) input else input with
  | [] => some []
  | g :: rest => if g.isBreak then some rest else none

end QuovaKotlin.Yaml

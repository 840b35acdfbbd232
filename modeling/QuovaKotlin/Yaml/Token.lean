import QuovaKotlin.Yaml.Block
import QuovaKotlin.Yaml.Tag

/-!
# Tokens

The tokens of a text make its structure explicit: `key` and `value` stand in front of the keys and
values of a mapping, also where a key is only known by the colon behind it. A mapping in lines is
given by the column of its keys. Only one mapping can be written, and no sequence; whatever cannot
belong to such a text is refused.
-/

set_option autoImplicit false

namespace QuovaKotlin.Yaml

/-- How a scalar is written. -/
inductive Style
  | plain
  | quoted
  | literal
  | folded
  deriving DecidableEq, Repr

inductive Token
  | directive (directive : Directive)
  | documentStart
  | documentEnd
  /-- Around a mapping that is written in lines. -/
  | linesStart
  | linesEnd
  /-- Around a mapping that is written between braces. -/
  | braceOpen
  | braceClose
  | key
  | value
  /-- The comma between two entries. -/
  | comma
  | anchor (name : String)
  /-- Stands for the node with an anchor. -/
  | reference (name : String)
  | tag (tag : Tag)
  | scalar (text : String) (style : Style)
  deriving DecidableEq, Repr

/-- A place where a key may have started. -/
structure KeyStart where
  /-- The number of tokens in front. -/
  position : Nat
  glyph : Glyph
  /-- Whether it must be a key, because it stands in the column of the keys. -/
  required : Bool
  deriving DecidableEq, Repr

/-- What has been read. -/
structure Progress where
  /-- The tokens, latest first. -/
  tokens : List Token := []
  /-- The column of the keys of a mapping in lines. -/
  indent : Option Nat := none
  /-- Whether braces are open. -/
  flow : Bool := false
  /-- Whether a key may start here. -/
  keyAllowed : Bool := true
  /-- The latest place where a key may have started. -/
  start : Option KeyStart := none
  deriving DecidableEq, Repr

namespace Progress

def add (p : Progress) (token : Token) : Progress :=
  { p with tokens := token :: p.tokens }

/-- The least column of what belongs to a value. -/
def leastColumn (p : Progress) : Nat :=
  match p.indent with
  | none => 0
  | some column => column + 1

/-- Begins a mapping in lines, unless it goes on; there is no mapping inside of another. -/
def indentTo? (p : Progress) (column position : Nat) : Option Progress :=
  if p.flow then some p
  else
    match p.indent with
    | some indent => if indent < column then none else some p
    | none =>
      let later := p.tokens.length - position
      some {
        p with
        indent := some column
        tokens := p.tokens.take later ++ .linesStart :: p.tokens.drop later }

/-- Ends a mapping in lines. -/
def endLines (p : Progress) : Progress :=
  if p.indent.isSome then { p.add .linesEnd with indent := none } else p

/-- Ends a mapping in lines in front of something that is further left than its keys. -/
def outdentTo (p : Progress) (column : Nat) : Progress :=
  if ! p.flow && p.indent.any (column < ·) then p.endLines else p

/-- Gives up the latest place where a key may have started. -/
def dropStart? (p : Progress) : Option Progress :=
  if p.start.any (·.required) then none else some { p with start := none }

/-- Whether a key that started at one glyph cannot be followed by its colon at another. -/
def isStale (start here : Glyph) : Bool :=
  start.line < here.line || start.index + 1024 < here.index

/-- Gives up a place where a key may have started, if it is on another line or too far away. -/
def dropStale? (p : Progress) (here : Glyph) : Option Progress :=
  if p.start.any fun start => isStale start.glyph here then p.dropStart? else some p

/-- Notes that a key may start at a glyph. -/
def saveStart? (p : Progress) (here : Glyph) : Option Progress :=
  if p.keyAllowed then do
    let p ← p.dropStart?
    return {
      p with
      start := some {
        position := p.tokens.length
        glyph := here
        required := ! p.flow && p.indent == some here.column } }
  else some p

/-- Reads a part of a node in front of which a key may start, and behind which none may. -/
def node? (p : Progress) (here : Glyph) (token : Token) : Option Progress := do
  return { (← p.saveStart? here).add token with keyAllowed := false }

/-- Reads a line around a document. -/
def boundary? (p : Progress) (token : Token) : Option Progress := do
  let p := if p.flow then p else p.endLines
  return { (← p.dropStart?).add token with keyAllowed := false }

def openBrace? (p : Progress) (here : Glyph) : Option Progress := do
  if p.flow then none
  else
    let p ← p.saveStart? here
    return { p.add .braceOpen with flow := true, keyAllowed := true, start := none }

def closeBrace? (p : Progress) : Option Progress :=
  if p.flow then
    some { p.add .braceClose with flow := false, keyAllowed := false, start := none }
  else none

def comma? (p : Progress) : Option Progress :=
  if p.flow then some { p.add .comma with keyAllowed := true, start := none } else none

/-- Reads a question mark, which announces a key. -/
def key? (p : Progress) (here : Glyph) : Option Progress := do
  if ! p.flow && ! p.keyAllowed then none
  else
    let p ← p.indentTo? here.column p.tokens.length
    let p ← p.dropStart?
    return { p.add .key with keyAllowed := ! p.flow }

/-- The tokens with `key` in front of those behind a position. -/
def announce (p : Progress) (position : Nat) : Progress :=
  let later := p.tokens.length - position
  { p with tokens := p.tokens.take later ++ .key :: p.tokens.drop later }

/-- Reads a colon, which announces a value and may tell that there was a key in front of it. -/
def value? (p : Progress) (here : Glyph) : Option Progress :=
  match p.start with
  | some start => do
    let p ← (p.announce start.position).indentTo? start.glyph.column start.position
    return { p.add .value with keyAllowed := false, start := none }
  | none =>
    if ! p.flow && ! p.keyAllowed then none
    else do
      let p ← p.indentTo? here.column p.tokens.length
      return { p.add .value with keyAllowed := ! p.flow }

end Progress

/-- Skips blanks, comments and line breaks. A tab counts only where no key may start. -/
def skipGap (flow keyAllowed comment : Bool) : Glyphs → Bool × Glyphs
  | [] => (keyAllowed, [])
  | g :: rest =>
    if g.isBreak then skipGap flow (keyAllowed || ! flow) false rest
    else if comment then skipGap flow keyAllowed true rest
    else if g.column == 0 && isOrderMark g.char then skipGap flow keyAllowed false rest
    else if g.char == ' ' || (g.char == '\t' && (flow || ! keyAllowed)) then
      skipGap flow keyAllowed false rest
    else if g.char == '#' then skipGap flow keyAllowed true rest
    else (keyAllowed, g :: rest)

/-- The characters that mean something at the start of a token. -/
def isIndicator (c : Char) : Bool :=
  "-?:,[]\x7b\x7d#&*!|>'\"%@`".toList.contains c

/-- Whether a plain scalar starts with a glyph. -/
def startsPlain (flow : Bool) (g : Glyph) (rest : Glyphs) : Bool :=
  if g.char == '-' then ! rest.head?.any Glyph.isBlank
  else if g.char == '?' || g.char == ':' then ! flow && ! atGap rest
  else ! g.isGap && ! isIndicator g.char

/-- Reads the scalar that starts with a glyph. -/
def readScalar? (p : Progress) (g : Glyph) (rest : Glyphs) : Option (Progress × Glyphs) :=
  match g.char with
  | '\'' => do
    let (text, rest) ← readSingle [] {} rest
    return (← p.node? g (.scalar text .quoted), rest)
  | '"' => do
    let (text, rest) ← readDouble [] {} rest
    return (← p.node? g (.scalar text .quoted), rest)
  | '|' | '>' => do
    if p.flow then none
    else
      let folded := g.char == '>'
      let p ← p.dropStart?
      let (text, rest) ← readBlock folded p.leastColumn rest
      return ({
        p.add (.scalar text (if folded then .folded else .literal)) with keyAllowed := true }, rest)
  | _ => do
    if ! startsPlain p.flow g rest then none
    else
      let plain ← readPlain p.flow p.leastColumn [] {} (g :: rest)
      let p ← p.node? g (.scalar plain.text .plain)
      return ({ p with keyAllowed := plain.crossed }, plain.rest)

/-- Reads a token that starts with a glyph and is no line around a document. -/
def readInner? (p : Progress) (g : Glyph) (rest : Glyphs) : Option (Progress × Glyphs) :=
  match g.char with
  | '{' => do return (← p.openBrace? g, rest)
  | '}' => do return (← p.closeBrace?, rest)
  | ',' => do return (← p.comma?, rest)
  | '[' | ']' => none
  | '&' => do
    let (name, rest) ← readName? rest
    return (← p.node? g (.anchor name), rest)
  | '*' => do
    let (name, rest) ← readName? rest
    return (← p.node? g (.reference name), rest)
  | '!' => do
    let (tag, rest) ← readTag? p.flow (g :: rest)
    return (← p.node? g (.tag tag), rest)
  | c =>
    if c == '-' && atGap rest then none
    else if c == '?' && (p.flow || atGap rest) then do return (← p.key? g, rest)
    else if c == ':' && (p.flow || atGap rest) then do return (← p.value? g, rest)
    else readScalar? p g rest

/-- Reads the token that starts with a glyph. -/
def readToken? (p : Progress) (g : Glyph) (rest : Glyphs) : Option (Progress × Glyphs) := do
  let p ← p.dropStale? g
  let p := p.outdentTo g.column
  if g.column == 0 && g.char == '%' then
    let (directive, rest) ← readDirective? rest
    return (← p.boundary? (.directive directive), rest)
  else if atMark '-' (g :: rest) then
    return (← p.boundary? .documentStart, rest.drop 2)
  else if atMark '.' (g :: rest) then
    return (← p.boundary? .documentEnd, rest.drop 2)
  else readInner? p g rest

/-- Reads tokens up to the end; every token takes at least one glyph, and one unit of fuel. -/
def readTokens? : Nat → Progress → Glyphs → Option (List Token)
  | 0, _, _ => none
  | fuel + 1, p, input =>
    match skipGap p.flow p.keyAllowed false input with
    | (_, []) => do return (← p.endLines.dropStart?).tokens.reverse
    | (keyAllowed, g :: rest) => do
      let (p, rest) ← readToken? { p with keyAllowed } g rest
      readTokens? fuel p rest

/-- The tokens of a text. -/
def tokens? (text : String) : Option (List Token) := do
  let input ← glyphs? text
  readTokens? (input.length + 1) {} input

end QuovaKotlin.Yaml

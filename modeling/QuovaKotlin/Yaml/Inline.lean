import QuovaKotlin.Yaml.Gap

/-!
# Plain and quoted scalars

A scalar may go on over several lines. The text of a scalar is built up latest character first.
-/

set_option autoImplicit false

namespace QuovaKotlin.Yaml

/-- Text that is built up latest character first, with something added. -/
def addText (text more : List Char) : List Char :=
  more.reverse ++ text

/-- The part of a plain scalar that has been read. -/
structure Plain where
  text : String
  /-- Whether a line ended behind it. -/
  crossed : Bool
  rest : Glyphs

/-- Whether a plain scalar ends in front of a glyph that is not a gap. -/
def endsPlain (flow : Bool) (indent : Nat) (gap : Gap) (g : Glyph) (rest : Glyphs) : Bool :=
  (gap.crossed && ! flow && g.column < indent) || atAnyMark (g :: rest) ||
    (! gap.isEmpty && g.char == '#') || (g.char == ':' && atGap rest) ||
    (flow && isFlowMark g.char)

/--
Reads a plain scalar. Its lines are at least as far right as `indent`, unless it is inside a flow.
It ends in front of a comment, a document line, a colon at the end of a word or, inside a flow, the
punctuation of the flow.
-/
def readPlain (flow : Bool) (indent : Nat) (text : List Char) (gap : Gap) : Glyphs → Option Plain
  | [] => some ⟨String.ofList text.reverse, gap.crossed, []⟩
  | g :: rest =>
    if g.isGap then
      if gap.crossed && g.char == '\t' && g.column < indent then none
      else readPlain flow indent text (gap.add g) rest
    else if endsPlain flow indent gap g rest then
      some ⟨String.ofList text.reverse, gap.crossed, g :: rest⟩
    else if flow && g.char == ':' && atAny [',', '?', '[', ']', '{', '}'] rest then none
    else readPlain flow indent (g.char :: addText text gap.text) {} rest

/-- The value of a hexadecimal digit. -/
def hexDigit? (c : Char) : Option Nat :=
  if c.isDigit then some (c.toNat - '0'.toNat)
  else if 'a' ≤ c && c ≤ 'f' then some (c.toNat - 'a'.toNat + 10)
  else if 'A' ≤ c && c ≤ 'F' then some (c.toNat - 'A'.toNat + 10)
  else none

/-- The character with the number that some digits spell. -/
def hexChar? (digits : List Glyph) : Option Char := do
  let values ← digits.mapM fun g => hexDigit? g.char
  let code := values.foldl (fun n d => 16 * n + d) 0
  if code.isValidChar then some (Char.ofNat code) else none

/-- The character that an escape with one letter stands for. -/
def escape? : Char → Option Char
  | '0' => some (Char.ofNat 0x00)
  | 'a' => some (Char.ofNat 0x07)
  | 'b' => some (Char.ofNat 0x08)
  | 't' | '\t' => some '\t'
  | 'n' => some '\n'
  | 'v' => some (Char.ofNat 0x0B)
  | 'f' => some (Char.ofNat 0x0C)
  | 'r' => some '\r'
  | 'e' => some (Char.ofNat 0x1B)
  | ' ' => some ' '
  | '"' => some '"'
  | '/' => some '/'
  | '\\' => some '\\'
  | 'N' => some (Char.ofNat 0x85)
  | '_' => some (Char.ofNat 0xA0)
  | 'L' => some (Char.ofNat 0x2028)
  | 'P' => some (Char.ofNat 0x2029)
  | _ => none

/-- Reads what is between single quotes, up to the closing one; two quotes stand for one. -/
def readSingle (text : List Char) (gap : Gap) : Glyphs → Option (String × Glyphs)
  | [] => none
  | g :: rest =>
    if g.isGap then readSingle text (gap.add g) rest
    else if atAnyMark (g :: rest) then none
    else
      let joined := addText text gap.text
      if g.char == '\'' then
        match rest with
        | [] => some (String.ofList joined.reverse, [])
        | h :: rest =>
          if h.char == '\'' then readSingle ('\'' :: joined) {} rest
          else some (String.ofList joined.reverse, h :: rest)
      else readSingle (g.char :: joined) {} rest

/--
Reads what is between double quotes, up to the closing one. A backslash escapes the next character;
an escaped line break counts for nothing.
-/
def readDouble (text : List Char) (gap : Gap) : Glyphs → Option (String × Glyphs)
  | [] => none
  | g :: rest =>
    if g.isGap then readDouble text (gap.add g) rest
    else if atAnyMark (g :: rest) then none
    else
      let joined := addText text gap.text
      if g.char == '"' then some (String.ofList joined.reverse, rest)
      else if g.char == '\\' then
        match rest with
        | [] => none
        | e :: rest =>
          if e.isBreak then readDouble joined Gap.escaped rest
          else if e.char == 'x' then
            match rest with
            | h₁ :: h₂ :: rest =>
              match hexChar? [h₁, h₂] with
              | none => none
              | some c => readDouble (c :: joined) {} rest
            | _ => none
          else if e.char == 'u' then
            match rest with
            | h₁ :: h₂ :: h₃ :: h₄ :: rest =>
              match hexChar? [h₁, h₂, h₃, h₄] with
              | none => none
              | some c => readDouble (c :: joined) {} rest
            | _ => none
          else if e.char == 'U' then
            match rest with
            | h₁ :: h₂ :: h₃ :: h₄ :: h₅ :: h₆ :: h₇ :: h₈ :: rest =>
              match hexChar? [h₁, h₂, h₃, h₄, h₅, h₆, h₇, h₈] with
              | none => none
              | some c => readDouble (c :: joined) {} rest
            | _ => none
          else
            match escape? e.char with
            | none => none
            | some c => readDouble (c :: joined) {} rest
      else readDouble (g.char :: joined) {} rest

end QuovaKotlin.Yaml

import QuovaKotlin.Yaml.Inline

/-!
# Tags, anchors and directives

A tag tells the type of a node: in full, or as a handle with a suffix. A directive gives a handle
its meaning or names the version of the language.
-/

set_option autoImplicit false

namespace QuovaKotlin.Yaml

/-- A tag as it is written: a handle and a suffix. A tag in full has the empty handle. -/
structure Tag where
  handle : String
  suffix : String
  deriving DecidableEq, Repr

/-- Reads the name of an anchor, which must end at a gap or at certain characters. -/
def readName? (input : Glyphs) : Option (String × Glyphs) :=
  let name := takeChars isWordChar input
  let rest := dropChars isWordChar input
  if name.isEmpty || ! (atGap rest || atAny "?:,]\x7d%@`".toList rest) then none
  else some (String.ofList name, rest)

/-- The characters of a tag; some more may stand in a tag in full. -/
def isTagChar (full : Bool) (c : Char) : Bool :=
  isWordChar c || ";/?:@&=+$.!~*'()".toList.contains c || (full && [',', '[', ']'].contains c)

/-- How many bytes a character has whose first byte is given. -/
def encodedWidth? (byte : Nat) : Option Nat :=
  if byte < 0x80 then some 1
  else if 0xC0 ≤ byte && byte < 0xE0 then some 2
  else if 0xE0 ≤ byte && byte < 0xF0 then some 3
  else if 0xF0 ≤ byte && byte < 0xF8 then some 4
  else none

/--
Reads the text of a tag. A byte may be written as a percent sign and two digits, and is kept as the
character with its number; `pending` bytes of a character must still follow.
-/
def readTagText (full : Bool) (text : List Char) (pending : Nat) :
    Glyphs → Option (List Char × Glyphs)
  | [] => if pending = 0 then some (text.reverse, []) else none
  | g :: rest =>
    if g.char == '%' then
      match rest with
      | h₁ :: h₂ :: rest =>
        match hexDigit? h₁.char, hexDigit? h₂.char with
        | some d₁, some d₂ =>
          let byte := 16 * d₁ + d₂
          let next := Char.ofNat byte :: text
          if pending = 0 then
            match encodedWidth? byte with
            | none => none
            | some width => readTagText full next (width - 1) rest
          else if 0x80 ≤ byte && byte < 0xC0 then readTagText full next (pending - 1) rest
          else none
        | _, _ => none
      | _ => none
    else if pending ≠ 0 then none
    else if isTagChar full g.char then readTagText full (g.char :: text) 0 rest
    else some (text.reverse, g :: rest)

/-- Reads the text of a tag up to its first null character. -/
def readTagString? (full : Bool) (input : Glyphs) : Option (String × Glyphs) := do
  let (text, rest) ← readTagText full [] 0 input
  return (String.ofList (text.takeWhile (·.toNat ≠ 0)), rest)

/-- Reads such a text that must not be missing. -/
def readTagString1? (full : Bool) (input : Glyphs) : Option (String × Glyphs) := do
  let (text, rest) ← readTagString? full input
  if rest.length < input.length then some (text, rest) else none

/-- Reads a handle, `!`, `!!` or a word between exclamation marks, or the start of a short tag. -/
def readHandle? : Glyphs → Option (String × Glyphs)
  | [] => none
  | g :: rest =>
    if g.char ≠ '!' then none
    else
      let word := takeChars isWordChar rest
      let rest := dropChars isWordChar rest
      match rest with
      | [] => some (String.ofList ('!' :: word), [])
      | h :: rest =>
        if h.char = '!' then some (String.ofList ('!' :: word ++ ['!']), rest)
        else some (String.ofList ('!' :: word), h :: rest)

/-- Whether the text of a handle is one, and not the start of a short tag. -/
def isHandle (handle : String) : Bool :=
  handle.length ≠ 1 && handle.toList.getLast? == some '!'

/-- Reads a tag between angle brackets, behind the opening one. -/
def readFullTag? (input : Glyphs) : Option (Tag × Glyphs) := do
  let (suffix, rest) ← readTagString1? true input
  match rest with
  | g :: rest => if g.char = '>' then some (⟨"", suffix⟩, rest) else none
  | [] => none

/-- Reads a tag with a handle. The lone `!` is a tag in full. -/
def readShortTag? (input : Glyphs) : Option (Tag × Glyphs) := do
  let (handle, rest) ← readHandle? input
  if isHandle handle then
    let (suffix, rest) ← readTagString1? false rest
    return (⟨handle, suffix⟩, rest)
  else
    let (suffix, rest) ← readTagString? false rest
    let suffix := String.ofList (handle.toList.drop 1) ++ suffix
    return (if suffix.isEmpty then ⟨"", "!"⟩ else ⟨"!", suffix⟩, rest)

/-- Reads a tag, which must end at a gap or, inside a flow, at a comma. -/
def readTag? (flow : Bool) (input : Glyphs) : Option (Tag × Glyphs) := do
  let (tag, rest) ←
    if atAny ['<'] (input.drop 1) then readFullTag? (input.drop 2) else readShortTag? input
  if atGap rest || (flow && atAny [','] rest) then some (tag, rest) else none

/-- What a directive says. -/
inductive Directive
  | version (major minor : Nat)
  /-- What the tags with a handle start with. -/
  | handle (handle start : String)
  deriving DecidableEq, Repr

/-- Reads a number of at most nine digits. -/
def readNumber? (input : Glyphs) : Option (Nat × Glyphs) :=
  let digits := takeChars Char.isDigit input
  if digits.isEmpty || 9 < digits.length then none
  else
    some (digits.foldl (fun n c => 10 * n + (c.toNat - '0'.toNat)) 0, dropChars Char.isDigit input)

def readVersion? (input : Glyphs) : Option (Directive × Glyphs) := do
  let (major, rest) ← readNumber? (dropChars isBlank input)
  if ! atAny ['.'] rest then none
  else
    let (minor, rest) ← readNumber? (rest.drop 1)
    return (.version major minor, rest)

def readHandleMeaning? (input : Glyphs) : Option (Directive × Glyphs) := do
  let (handle, rest) ← readHandle? (dropChars isBlank input)
  if ! (handle == "!" || isHandle handle) || ! rest.head?.any Glyph.isBlank then none
  else
    let (start, rest) ← readTagString1? true (dropChars isBlank rest)
    if atGap rest then some (.handle handle start, rest) else none

/-- Reads a directive behind its percent sign, up to the end of its line. -/
def readDirective? (input : Glyphs) : Option (Directive × Glyphs) := do
  let rest := dropChars isWordChar input
  if ! atGap rest then none
  else
    let (directive, rest) ←
      match String.ofList (takeChars isWordChar input) with
      | "YAML" => readVersion? rest
      | "TAG" => readHandleMeaning? rest
      | _ => none
    return (directive, ← nextLine? rest)

end QuovaKotlin.Yaml

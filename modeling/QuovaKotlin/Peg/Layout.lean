/-!
# Layout

Blanks and comments, which normal rules skip between their parts. A line comment runs to the end
of its line; a block comment ends at the first closing mark and does not nest. A block comment
without a closing mark is no comment, so skipping stops in front of it.
-/

set_option autoImplicit false

namespace QuovaKotlin.Peg

/-- A place in the input: the number of characters in front of it and those that follow. -/
structure Cursor where
  index : Nat
  rest : List Char
  deriving DecidableEq, Repr

namespace Layout

def isBlank (c : Char) : Bool :=
  c == ' ' || c == '\t' || c == '\r' || c == '\n'

def endsLine (c : Char) : Bool :=
  c == '\n' || c == '\r'

/-- Where the scan for the end of the layout stands. -/
inductive State
  | between
  | lineComment
  | blockComment (opening : Cursor)
  deriving DecidableEq, Repr

/-- The end of the layout that starts in `state` at `index`. -/
def skipFrom : State → Nat → List Char → Cursor
  | .between, index, '/' :: '/' :: rest => skipFrom .lineComment (index + 2) rest
  | .between, index, '/' :: '*' :: rest =>
      skipFrom (.blockComment ⟨index, '/' :: '*' :: rest⟩) (index + 2) rest
  | .between, index, c :: rest =>
      if isBlank c then skipFrom .between (index + 1) rest else ⟨index, c :: rest⟩
  | .lineComment, index, c :: rest =>
      if endsLine c then skipFrom .between (index + 1) rest
      else skipFrom .lineComment (index + 1) rest
  | .blockComment _, index, '*' :: '/' :: rest => skipFrom .between (index + 2) rest
  | .blockComment opening, index, _ :: rest =>
      skipFrom (.blockComment opening) (index + 1) rest
  | .blockComment opening, _, [] => opening
  | _, index, [] => ⟨index, []⟩

end Layout

/-- The place after all blanks and comments at `cursor`. -/
def Cursor.skipLayout (cursor : Cursor) : Cursor :=
  Layout.skipFrom .between cursor.index cursor.rest

/-- The place after `chars`, if the input goes on with them. -/
def Cursor.strip? (cursor : Cursor) : List Char → Option Cursor
  | [] => some cursor
  | c :: chars =>
    match cursor.rest with
    | [] => none
    | d :: rest => if c = d then Cursor.strip? ⟨cursor.index + 1, rest⟩ chars else none

/-- The text between `cursor` and a later place of the same input. -/
def Cursor.textTo (cursor later : Cursor) : String :=
  String.ofList (cursor.rest.take (later.index - cursor.index))

end QuovaKotlin.Peg

import QuovaKotlin.Yaml.Token

/-!
# Mappings

A text is at most one document, and the document is at most one mapping from scalars to scalars.
-/

set_option autoImplicit false

namespace QuovaKotlin.Yaml

structure Scalar where
  text : String := ""
  style : Style := .plain
  /-- The tag in full. -/
  tag : Option String := none
  deriving DecidableEq, Repr

/-- A key or a value. -/
inductive Node
  | scalar (anchor : Option String) (scalar : Scalar)
  | reference (name : String)
  deriving DecidableEq, Repr

/-- A key or value that is left out. -/
def Node.empty : Node :=
  .scalar none {}

/-- What the handles of tags stand for. -/
abbrev Handles := List (String × String)

def Handles.standard : Handles :=
  [("!", "!"), ("!!", "tag:yaml.org,2002:")]

/-- A tag in full, if its handle is known. -/
def Tag.resolve? (handles : Handles) (tag : Tag) : Option String :=
  if tag.handle.isEmpty then some tag.suffix
  else (handles.lookup tag.handle).map (· ++ tag.suffix)

/-- What may stand in front of a node. -/
structure Properties where
  anchor : Option String := none
  tag : Option String := none
  deriving DecidableEq, Repr

def Properties.isEmpty (properties : Properties) : Bool :=
  properties.anchor.isNone && properties.tag.isNone

/-- Reads an anchor and a tag, in either order. -/
def readProperties? (handles : Handles) : List Token → Option (Properties × List Token)
  | .anchor name :: .tag tag :: tokens | .tag tag :: .anchor name :: tokens => do
    return ({ anchor := some name, tag := some (← tag.resolve? handles) }, tokens)
  | .anchor name :: tokens => some ({ anchor := some name }, tokens)
  | .tag tag :: tokens => do return ({ tag := some (← tag.resolve? handles) }, tokens)
  | tokens => some ({}, tokens)

/-- Reads a scalar or a reference. Properties alone make an empty scalar. -/
def readNode? (handles : Handles) (tokens : List Token) : Option (Node × List Token) := do
  let (properties, tokens) ← readProperties? handles tokens
  match tokens with
  | .reference name :: rest =>
    if properties.isEmpty then some (.reference name, rest)
    else some (.scalar properties.anchor { tag := properties.tag }, tokens)
  | .scalar text style :: rest =>
    let tag := if properties.tag = some "!" then none else properties.tag
    some (.scalar properties.anchor { text, style, tag }, rest)
  | .braceOpen :: _ | .linesStart :: _ => none
  | tokens =>
    if properties.isEmpty then none
    else some (.scalar properties.anchor { tag := properties.tag }, tokens)

/-- Reads a node, or nothing in front of certain tokens. -/
def readNodeUnless? (handles : Handles) (ends : List Token) (tokens : List Token) :
    Option (Node × List Token) :=
  if tokens.head?.any ends.contains then some (.empty, tokens) else readNode? handles tokens

/-- Reads a value behind its token, or nothing where that token is missing. -/
def readValue? (handles : Handles) (ends : List Token) : List Token → Option (Node × List Token)
  | .value :: tokens => readNodeUnless? handles ends tokens
  | tokens => some (.empty, tokens)

/-- Reads the entries of a mapping in lines, up to its end. -/
def readLineEntries? (handles : Handles) :
    Nat → List Token → Option (List (Node × Node) × List Token)
  | fuel + 1, .key :: tokens => do
    let ends := [.key, .value, .linesEnd]
    let (key, tokens) ← readNodeUnless? handles ends tokens
    let (value, tokens) ← readValue? handles ends tokens
    let (entries, tokens) ← readLineEntries? handles fuel tokens
    return ((key, value) :: entries, tokens)
  | _, .linesEnd :: tokens => some ([], tokens)
  | _, _ => none

/-- Reads one entry between braces; a node alone is a key. -/
def readBraceEntry? (handles : Handles) : List Token → Option ((Node × Node) × List Token)
  | .key :: tokens => do
    let (key, tokens) ← readNodeUnless? handles [.value, .comma, .braceClose] tokens
    let (value, tokens) ← readValue? handles [.comma, .braceClose] tokens
    return ((key, value), tokens)
  | tokens => do
    let (key, tokens) ← readNode? handles tokens
    return ((key, .empty), tokens)

/-- Reads the entries of a mapping between braces. A comma may follow the last of them. -/
def readBraceEntries? (handles : Handles) :
    Nat → List Token → Option (List (Node × Node) × List Token)
  | _, .braceClose :: tokens => some ([], tokens)
  | 0, _ => none
  | fuel + 1, tokens => do
    let (entry, tokens) ← readBraceEntry? handles tokens
    match tokens with
    | .comma :: tokens =>
      let (entries, tokens) ← readBraceEntries? handles fuel tokens
      return (entry :: entries, tokens)
    | .braceClose :: tokens => return ([entry], tokens)
    | _ => none

/-- The mapping of a document, with its own anchor. -/
structure Mapping where
  anchor : Option String := none
  entries : List (Node × Node) := []
  deriving DecidableEq, Repr

/-- Reads a mapping; properties alone make an empty one. -/
def readMapping? (handles : Handles) (tokens : List Token) : Option (Mapping × List Token) := do
  let (properties, tokens) ← readProperties? handles tokens
  match tokens with
  | .linesStart :: rest => do
    let (entries, rest) ← readLineEntries? handles rest.length rest
    return ({ anchor := properties.anchor, entries }, rest)
  | .braceOpen :: rest => do
    let (entries, rest) ← readBraceEntries? handles rest.length rest
    return ({ anchor := properties.anchor, entries }, rest)
  | .scalar _ _ :: _ => none
  | _ => if properties.isEmpty then none else some ({}, tokens)

/-- The directives in front of a document. -/
structure Directives where
  version : Option (Nat × Nat) := none
  handles : Handles := []

/-- Adds a directive; there is one version at most, which is known, and one meaning of a handle. -/
def Directives.add? (directives : Directives) : Directive → Option Directives
  | .version major minor =>
    if directives.version.isSome || major ≠ 1 || (minor ≠ 1 && minor ≠ 2) then none
    else some { directives with version := some (major, minor) }
  | .handle handle start =>
    if (directives.handles.lookup handle).isSome then none
    else some { directives with handles := directives.handles ++ [(handle, start)] }

/-- Reads the directives in front of a document, which then needs a line that begins it. -/
def readDirectives? (directives : Directives) : List Token → Option (Directives × List Token)
  | .directive directive :: tokens => do readDirectives? (← directives.add? directive) tokens
  | .documentStart :: tokens => some (directives, tokens)
  | _ => none

/-- Reads a document that begins with a line of its own; it may be empty. -/
def readOpenDocument? (tokens : List Token) : Option (Mapping × List Token) := do
  let (directives, tokens) ← readDirectives? {} tokens
  match tokens with
  | [] | .directive _ :: _ | .documentStart :: _ | .documentEnd :: _ => some ({}, tokens)
  | tokens => readMapping? (directives.handles ++ Handles.standard) tokens

/-- Reads a document. -/
def readDocument? : List Token → Option (Mapping × List Token)
  | [] => some ({}, [])
  | tokens@(.directive _ :: _) | tokens@(.documentStart :: _) => readOpenDocument? tokens
  | tokens => readMapping? Handles.standard tokens

/-- The mapping of a text. No second document may follow. -/
def mapping? (text : String) : Option Mapping := do
  let (mapping, rest) ← readDocument? (← tokens? text)
  if rest.all (· = .documentEnd) then some mapping else none

/--
The anchors of a mapping. An anchor gets the number of names that are known when it is set, and a
name has the number that it got last; of two nodes with one number the later counts.
-/
structure Anchors where
  numbers : List (String × Nat) := []
  /-- The scalar with each number, the latest first; the mapping itself is none. -/
  meanings : List (Nat × Option Scalar) := []
  deriving DecidableEq, Repr

/-- The numbers with another one for a name. -/
def renumber (name : String) (number : Nat) : List (String × Nat) → List (String × Nat)
  | [] => [(name, number)]
  | (other, n) :: numbers =>
    if other = name then (name, number) :: numbers else (other, n) :: renumber name number numbers

def Anchors.set (anchors : Anchors) (name : Option String) (meaning : Option Scalar) : Anchors :=
  match name with
  | none => anchors
  | some name =>
    let number := anchors.numbers.length
    { numbers := renumber name number anchors.numbers
      meanings := (number, meaning) :: anchors.meanings }

/-- A node, or the number of the anchor that it refers to. -/
abbrev Target := Scalar ⊕ Nat

/-- Sets the anchor of a node, or looks up the one that it refers to, which must be set. -/
def Anchors.visit? (anchors : Anchors) : Node → Option (Target × Anchors)
  | .scalar anchor scalar => some (.inl scalar, anchors.set anchor (some scalar))
  | .reference name => (anchors.numbers.lookup name).map fun number => (.inr number, anchors)

/-- Visits the keys and values of entries in the order of the text. -/
def Anchors.visitAll? (anchors : Anchors) :
    List (Node × Node) → Option (List (Target × Target) × Anchors)
  | [] => some ([], anchors)
  | (key, value) :: entries => do
    let (key, anchors) ← anchors.visit? key
    let (value, anchors) ← anchors.visit? value
    let (entries, anchors) ← anchors.visitAll? entries
    return ((key, value) :: entries, anchors)

/-- The scalar of a target. -/
def Anchors.resolve? (anchors : Anchors) : Target → Option Scalar
  | .inl scalar => some scalar
  | .inr number => (anchors.meanings.lookup number).join

/-- An entry of a mapping. -/
abbrev Entry := String × Scalar

/-- The entries of a mapping, with every reference resolved. -/
def Mapping.entries? (mapping : Mapping) : Option (List Entry) := do
  let (targets, anchors) ← (({} : Anchors).set mapping.anchor none).visitAll? mapping.entries
  targets.mapM fun (key, value) => do
    return ((← anchors.resolve? key).text, ← anchors.resolve? value)

/-- The entries of the mapping that a text describes. -/
def entries? (text : String) : Option (List Entry) := do
  (← mapping? text).entries?

end QuovaKotlin.Yaml

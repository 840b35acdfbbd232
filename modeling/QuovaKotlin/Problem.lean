/-!
# Problems

Everything that can keep the compiler from an answer. The first problem ends the work on a unit.
-/

set_option autoImplicit false

namespace QuovaKotlin

/-- The characters stand side by side somewhere in the text. -/
def Text.holds (part : List Char) : List Char → Bool
  | [] => part.isEmpty
  | c :: text => part.isPrefixOf (c :: text) || Text.holds part text

/-- The class of a problem. -/
inductive ProblemKind
  | parse
  | missingNode
  | unsupported
  | io
  | config
  deriving DecidableEq, Repr

def ProblemKind.name : ProblemKind → String
  | parse => "parse"
  | missingNode => "missing-node"
  | unsupported => "unsupported"
  | io => "io"
  | config => "config"

/-- What stands in front of the message of a problem. -/
def ProblemKind.title : ProblemKind → String
  | parse => "Parse error"
  | missingNode => "Missing parse-tree node"
  | unsupported => "Unsupported construct"
  | io => "I/O error"
  | config => "Configuration error"

/-- A construct that the grammar accepts and that has no Kotlin counterpart. -/
inductive Unsupported
  | arrayDictionary
  | constructorDictionary
  deriving DecidableEq, Repr

def Unsupported.message : Unsupported → String
  | arrayDictionary => "dictionary initializer for an array"
  | constructorDictionary => "dictionary initializer in a constructor call"

def Unsupported.help : Unsupported → String
  | arrayDictionary => "array initializers take a plain element list such as `\x7ba, b\x7d`"
  | constructorDictionary => "pass the entries as constructor arguments instead"

/-- The bytes of a source text from `start` up to `stop`, `stop` excluded. -/
structure ByteRange where
  start : Nat
  stop : Nat
  deriving DecidableEq, Repr

inductive Problem
  /-- The grammar refuses a text; the place is that of the furthest attempt. -/
  | rejected (offset : Nat) (expectation : String)
  /-- A parse tree lacks a part that the grammar provides. -/
  | missing (message : String) (range : ByteRange)
  | unsupported (construct : Unsupported) (range : ByteRange)
  /-- A file or directory cannot be read or written. -/
  | inaccessible (path : String)
  | misconfigured (path : String)
  deriving DecidableEq, Repr

namespace Problem

def kind : Problem → ProblemKind
  | rejected .. => .parse
  | missing .. => .missingNode
  | unsupported .. => .unsupported
  | inaccessible _ => .io
  | misconfigured _ => .config

/-- The message for a refused text. A closing symbol that was expected by itself, between quotes, is
missing; anything else is a syntax error. -/
def refusal (expectation : String) : String :=
  if Text.holds "\")\"".toList expectation.toList then "Missing closing parenthesis"
  else if Text.holds "\"\x7d\"".toList expectation.toList then "Missing closing brace"
  else if Text.holds "\";\"".toList expectation.toList then "Missing semicolon"
  else "Syntax error"

def message : Problem → String
  | rejected _ expectation => refusal expectation
  | missing message _ => message
  | unsupported construct _ => construct.message
  | inaccessible path | misconfigured path => path

/-- The message with its title. -/
def text (problem : Problem) : String :=
  problem.kind.title ++ ": " ++ problem.message

/-- The code under which a problem is reported. -/
def code (problem : Problem) : String :=
  "quova::" ++ problem.kind.name

def help? : Problem → Option String
  | rejected _ expectation => some expectation
  | unsupported construct _ => some construct.help
  | _ => none

/-- The part of the source that a problem is about. -/
def range? : Problem → Option ByteRange
  | rejected offset _ => some ⟨offset, offset⟩
  | missing _ range => some range
  | unsupported _ range => some range
  | _ => none

end Problem

/-- A marked part of a source text; at least one byte is marked. -/
structure Label where
  offset : Nat
  length : Nat
  text : String
  deriving DecidableEq, Repr

def Problem.label? (problem : Problem) : Option Label :=
  problem.range?.map fun range =>
    ⟨range.start, if range.start < range.stop then range.stop - range.start else 1,
      problem.message⟩

end QuovaKotlin

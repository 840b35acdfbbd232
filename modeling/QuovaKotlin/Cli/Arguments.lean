/-!
# Command line arguments

Options for all commands may stand in front of the command or behind it. Every option may be given
once in each of these two places, and the one behind the command wins.
-/

set_option autoImplicit false

namespace QuovaKotlin.Cli

inductive ColorMode
  | auto
  | always
  | never
  deriving DecidableEq, Repr

def ColorMode.ofName? : String → Option ColorMode
  | "auto" => some .auto
  | "always" => some .always
  | "never" => some .never
  | _ => none

inductive Command
  /-- Compiles one source file, into a file or to standard output. -/
  | compile (file : String) (output : Option String)
  /-- Compiles a module description, into a directory or to standard output. -/
  | module (file : String) (output : Option String)
  /-- Compiles a directory. -/
  | build (dir : String) (output : Option String)
  /-- Prints the syntax tree of a source file. -/
  | ast (file : String)
  deriving DecidableEq, Repr

structure Invocation where
  config : Option String
  color : ColorMode
  command : Command
  deriving DecidableEq, Repr

/-- What a command line asks for. -/
inductive Request
  | invocation (invocation : Invocation)
  | version
  | help
  deriving DecidableEq, Repr

inductive Piece
  | operand (text : String)
  | long (name : String) (value : Option String)
  | short (letters : List Char)
  /-- `--`, behind which everything is an operand. -/
  | terminator
  deriving DecidableEq, Repr

def Piece.ofArgument (argument : String) : Piece :=
  match argument.toList with
  | ['-', '-'] => .terminator
  | '-' :: '-' :: chars =>
    .long (String.ofList (chars.takeWhile (· ≠ '=')))
      (match chars.dropWhile (· ≠ '=') with
        | [] => none
        | _ :: value => some (String.ofList value))
  | '-' :: letter :: letters => .short (letter :: letters)
  | _ => .operand argument

/-- Whether an argument can be the value of the option in front of it. -/
def isValue (argument : String) : Bool :=
  match Piece.ofArgument argument with
  | .operand _ => true
  | _ => false

/-- The options and operands so far. -/
structure Options where
  config : Option String := none
  color : Option ColorMode := none
  output : Option String := none
  operands : List String := []

/-- The options that take a value. -/
inductive Key
  | config
  | color
  | output
  deriving DecidableEq, Repr

/-- Gives an option its value, if it has none yet. -/
def Options.assign (options : Options) (key : Key) (value : String) : Option Options :=
  match key with
  | .config =>
    if options.config.isSome || value.isEmpty then none
    else some { options with config := some value }
  | .color =>
    if options.color.isSome then none
    else (ColorMode.ofName? value).map fun mode => { options with color := some mode }
  | .output =>
    if options.output.isSome || value.isEmpty then none
    else some { options with output := some value }

/-- What the options of a place do. -/
inductive Effect
  | proceed (options : Options)
  /-- The next argument was taken as a value. -/
  | proceedBehind (options : Options)
  | version
  | help

/-- Where an option stands: in front of the command, or behind one that may have an output. -/
inductive Position
  | front
  | behind (hasOutput : Bool)
  deriving DecidableEq, Repr

/-- Takes the next argument as the value of an option. -/
def assignNext (options : Options) (key : Key) (next : Option String) : Option Effect := do
  let value ← next
  if isValue value then .proceedBehind <$> options.assign key value else none

def longKey? (position : Position) : String → Option Key
  | "config" => some .config
  | "color" => some .color
  | "output" => if position = .behind true then some .output else none
  | _ => none

def longEffect (position : Position) (options : Options) (name : String)
    (value next : Option String) :
    Option Effect :=
  match longKey? position name, value with
  | some key, some value => .proceed <$> options.assign key value
  | some key, none => assignNext options key next
  | none, some _ => none
  | none, none =>
    match name, position with
    | "verbose", _ => some (.proceed options)
    | "help", _ => some .help
    | "version", .front => some .version
    | _, _ => none

/-- A run of one-letter options; the value of `o` is the rest of the run, or the next argument. -/
def shortEffect (position : Position) (options : Options) (next : Option String) :
    List Char → Option Effect
  | [] => some (.proceed options)
  | 'v' :: letters => shortEffect position options next letters
  | 'h' :: _ => some .help
  | 'V' :: _ => if position = .front then some .version else none
  | 'o' :: letters =>
    if position ≠ .behind true then none
    else
      match letters with
      | [] => assignNext options .output next
      | '=' :: value => .proceed <$> options.assign .output (String.ofList value)
      | value => .proceed <$> options.assign .output (String.ofList value)
  | _ => none

def effect (position : Position) (options : Options) (piece : Piece) (next : Option String) :
    Option Effect :=
  match piece with
  | .long name value => longEffect position options name value next
  | .short letters => shortEffect position options next letters
  | .operand text =>
    if text.isEmpty then none
    else some (.proceed { options with operands := options.operands ++ [text] })
  | .terminator => none

inductive Verb
  | compile
  | module
  | build
  | ast
  deriving DecidableEq, Repr

def Verb.ofName? : String → Option Verb
  | "compile" => some .compile
  | "module" => some .module
  | "build" => some .build
  | "ast" => some .ast
  | _ => none

/-- Whether help can be asked for by some words: at most one, which names a command. -/
def isHelpTopic : List String → Bool
  | [] | ["help"] => true
  | [name] => (Verb.ofName? name).isSome
  | _ => false

/-- The command with its operands; a build without one is that of the working directory. -/
def Verb.command? (verb : Verb) (options : Options) : Option Command :=
  match verb, options.operands with
  | .compile, [file] => some (.compile file options.output)
  | .module, [file] => some (.module file options.output)
  | .build, [] => some (.build "." options.output)
  | .build, [dir] => some (.build dir options.output)
  | .ast, [file] => some (.ast file)
  | _, _ => none

/-- The request of a command and the options on both sides of it. -/
def Verb.request? (verb : Verb) (front behind : Options) : Option Request := do
  let command ← verb.command? behind
  return .invocation {
    config := behind.config <|> front.config
    color := (behind.color <|> front.color).getD .auto
    command }

/-- Reads the arguments behind a command. -/
def parseBehind (verb : Verb) (front : Options) : Options → List String → Option Request
  | options, [] => verb.request? front options
  | options, argument :: rest =>
    match Piece.ofArgument argument with
    | .terminator =>
      if rest.any (·.isEmpty) then none
      else verb.request? front { options with operands := options.operands ++ rest }
    | piece =>
      match effect (.behind (verb ≠ .ast)) options piece rest.head? with
      | none => none
      | some .version => some .version
      | some .help => some .help
      | some (.proceed options) => parseBehind verb front options rest
      | some (.proceedBehind options) =>
        match rest with
        | [] => none
        | _ :: rest => parseBehind verb front options rest

/-- Reads the arguments in front of a command, and then the command. -/
def parseFront : Options → List String → Option Request
  | _, [] => none
  | options, argument :: rest =>
    match Piece.ofArgument argument with
    | .operand "help" => if isHelpTopic rest then some .help else none
    | .operand name => do parseBehind (← Verb.ofName? name) options {} rest
    | piece =>
      match effect .front options piece rest.head? with
      | none => none
      | some .version => some .version
      | some .help => some .help
      | some (.proceed options) => parseFront options rest
      | some (.proceedBehind options) =>
        match rest with
        | [] => none
        | _ :: rest => parseFront options rest

/-- The request of a command line, if it is well formed. -/
def parse? (arguments : List String) : Option Request :=
  parseFront {} arguments

end QuovaKotlin.Cli

import QuovaKotlin.Ast.Dump
import QuovaKotlin.Cli.Arguments
import QuovaKotlin.Config.Load
import QuovaKotlin.Json.Pretty
import QuovaKotlin.Project.Build

/-!
# Running commands

A command reads and writes files of a file tree and has something to print. It prints nothing
before all of its work is done.
-/

set_option autoImplicit false

namespace QuovaKotlin.Cli

open Text

/-- What was done, in one word and in detail. -/
structure Status where
  verb : String
  message : String
  deriving DecidableEq, Repr

/-- What a command prints. -/
structure Printed where
  text : String := ""
  status : List Status := []
  deriving DecidableEq, Repr

def compileFile (config : Config) (file : String) (output : Option String) : Work Printed := do
  let text ← Work.readFile file
  let kotlin ← Work.ofExcept (compileSource config file text)
  match output with
  | none => return { text := kotlin }
  | some target =>
    Work.writeFile target kotlin
    return { status := [⟨"Compiled", file ++ " -> " ++ target⟩] }

def compileModuleFile (config : Config) (file : String) (output : Option String) :
    Work Printed := do
  let text ← Work.readFile file
  let files ← Work.ofExcept (compileModule config text)
  match output with
  | none => return { text := files.build ++ files.settings }
  | some dir =>
    Work.makeDirectory dir
    Work.writeFile (Path.join dir "build.gradle") files.build
    Work.writeFile (Path.join dir "settings.gradle") files.settings
    return {
      status := [
        ⟨"Generated", dir ++ "/build.gradle"⟩, ⟨"Generated", dir ++ "/settings.gradle"⟩] }

def buildDirectory (config : Config) (dir : String) (output : Option String) : Work Printed := do
  let out := output.getD (Path.join dir config.outputDir)
  let report ← Project.build config dir out
  let finished :=
    toString report.sources.length ++ " source file(s) into " ++ out
  return {
    status :=
      (report.sources ++ report.buildFiles).map (⟨"Wrote", ·⟩) ++ [⟨"Finished", finished⟩] }

def printAst (file : String) : Work Printed := do
  let text ← Work.readFile file
  let ast ← Work.ofExcept (Source.parse text)
  return { text := ast.dump.pretty ++ "\n" }

def loadConfig (path : Option String) : Work Config := do
  match path with
  | none => return {}
  | some path => Work.ofExcept (Config.load (← get) path)

def Invocation.work (invocation : Invocation) : Work Printed := do
  let config ← loadConfig invocation.config
  match invocation.command with
  | .compile file output => compileFile config file output
  | .module file output => compileModuleFile config file output
  | .build dir output => buildDirectory config dir output
  | .ast file => printAst file

/-- The text, moved to the right end of a field of the given width. -/
def alignRight (width : Nat) (s : String) : String :=
  copies (width - s.length) " " ++ s

/-- Switches to bold green. -/
def greenOn : String :=
  "\x1b[0m\x1b[1m\x1b[32m"

def greenOff : String :=
  "\x1b[0m"

/-- A status line; only the verb is in color. -/
def Status.line (color : ColorMode) (status : Status) : String :=
  let verb := alignRight 12 status.verb
  (if color = .always then greenOn ++ verb ++ greenOff else verb) ++ " " ++ status.message

/-- What a command line comes to. -/
structure Outcome where
  exitCode : Nat
  text : String := ""
  status : List String := []
  problem : Option Problem := none
  files : FileTree

def versionText : String :=
  "quova 0.1.0\n"

def helpText : String :=
  lines [
    "Compiles Quova sources to Kotlin and module descriptions to Gradle builds.",
    "",
    "Usage: quova [OPTIONS] <COMMAND>",
    "",
    "Commands:",
    "  compile <FILE> [-o FILE]  Compile one source file to Kotlin",
    "  module <FILE> [-o DIR]    Compile a module description to Gradle files",
    "  build [DIR] [-o DIR]      Compile every source file in a directory",
    "  ast <FILE>                Show the syntax tree of a source file as JSON",
    "",
    "Options:",
    "  --config <FILE>           YAML compiler configuration",
    "  --color <MODE>            auto, always or never",
    "  -v, --verbose             Say more",
    "  -V, --version             Print the version",
    ""]

def Invocation.outcome (invocation : Invocation) (files : FileTree) : Outcome :=
  match invocation.work.run.run files with
  | (.ok printed, files) =>
    { exitCode := 0
      text := printed.text
      status := printed.status.map (·.line invocation.color)
      files }
  | (.error problem, files) => { exitCode := 1, problem := some problem, files }

/-- Runs a command line over a file tree. -/
def run (arguments : List String) (files : FileTree) : Outcome :=
  match parse? arguments with
  | none => { exitCode := 2, files }
  | some .version => { exitCode := 0, text := versionText, files }
  | some .help => { exitCode := 0, text := helpText, files }
  | some (.invocation invocation) => invocation.outcome files

end QuovaKotlin.Cli

import QuovaKotlin.Cli.Run

/-!
# The command line program

Loads the files that a command line mentions, runs it on them, and writes back what has changed.
-/

set_option autoImplicit false

namespace QuovaKotlin.Main

/-- The paths that a command reads or writes. -/
def pathsOf (config : Config) : Cli.Command → List String
  | .compile file output | .module file output => file :: output.toList
  | .build dir output =>
    [dir, Path.join dir config.moduleFile, output.getD (Path.join dir config.outputDir)]
  | .ast file => [file]

/-- The path of a place, as seen from the working directory. -/
def pathOf : Place → String
  | [] => "."
  | "/" :: names => "/" ++ Text.joinWith "/" names
  | names => Text.joinWith "/" names

/-- Adds what is at a place: a file with its bytes, or a directory with all that is in it. -/
partial def load (tree : FileTree) (place : Place) : IO FileTree := do
  try
    let path ← IO.FS.realPath (pathOf place)
    if ← path.isDir then
      let mut tree := { tree with directories := place :: tree.directories }
      for entry in ← path.readDir do
        tree ← load tree (place ++ [entry.fileName])
      return tree
    else
      return { tree with files := FileTree.put place (← IO.FS.readBinFile path) tree.files }
  catch _ => return tree

/-- Adds a place, if it is a directory, but nothing of what is in it. -/
def loadDirectory (tree : FileTree) (place : Place) : IO FileTree := do
  try
    let path ← IO.FS.realPath (pathOf place)
    if ← path.isDir then return { tree with directories := place :: tree.directories }
    else return tree
  catch _ => return tree

/-- Adds what is at a path, and the directories on the way to it. -/
def loadPath (tree : FileTree) (path : String) : IO FileTree := do
  let places := Place.along (Place.origin path) (Path.names path)
  let tree ← places.dropLast.foldlM loadDirectory tree
  places.getLast?.elim (pure tree) (load tree)

/-- The files that a command line mentions, and the directories on the way to them. -/
def snapshot (arguments : List String) : IO FileTree := do
  match Cli.parse? arguments with
  | some (.invocation invocation) =>
    let tree ← invocation.config.toList.foldlM loadPath {}
    match (Cli.loadConfig invocation.config).run.run tree with
    | (.ok config, _) => (pathsOf config invocation.command).foldlM loadPath tree
    | (.error _, _) => return tree
  | _ => return {}

/-- Makes the directories and writes the files that are new. -/
def commit (before after : FileTree) : IO Unit := do
  for place in after.directories do
    if ! before.directories.contains place then
      IO.FS.createDirAll (pathOf place)
  for (place, text) in before.changes after do
    IO.FS.writeFile (pathOf place) text

/-- Tells what went wrong, and where. -/
def report (problem : Problem) : IO Unit := do
  IO.eprintln "error: compilation failed"
  IO.eprintln (problem.code ++ ": " ++ problem.text)
  for label in problem.label? do
    IO.eprintln ("  at byte " ++ toString label.offset ++ ": " ++ label.text)
  for help in problem.help? do
    IO.eprintln ("  help: " ++ help)

end QuovaKotlin.Main

open QuovaKotlin in
def main (arguments : List String) : IO UInt32 := do
  let before ← Main.snapshot arguments
  let outcome := Cli.run arguments before
  try
    Main.commit before outcome.files
  catch e =>
    Main.report (.inaccessible (toString e))
    return 1
  IO.print outcome.text
  for line in outcome.status do
    IO.eprintln line
  for problem in outcome.problem do
    Main.report problem
  if outcome.exitCode = 2 then
    IO.eprint Cli.helpText
  return outcome.exitCode.toUInt32

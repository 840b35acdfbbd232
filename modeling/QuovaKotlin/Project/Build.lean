import QuovaKotlin.Compile
import QuovaKotlin.Project.FileTree

/-!
# Building projects

Every source file under a directory is compiled into the output directory, one after the other, and
the module description of the directory after them. The first problem ends the build and leaves the
files that were written before it.
-/

set_option autoImplicit false

namespace QuovaKotlin

/-- Work that reads and writes files, and that may end with a problem. -/
abbrev Work := ExceptT Problem (StateM FileTree)

namespace Work

/-- Work that only computes. -/
def ofExcept {α : Type} : Except Problem α → Work α
  | .ok a => return a
  | .error problem => throw problem

/-- The text of a file that is there and has one. -/
def readFile (path : String) : Work String := do
  match (← get).read? path with
  | some text => return text
  | none => throw (.inaccessible path)

/-- Writes a file into a directory that is there. -/
def writeFile (path text : String) : Work Unit := do
  match (← get).write? path text with
  | some tree => set tree
  | none => throw (.inaccessible path)

/-- Makes directories; what was made stays, also if not all could be made. -/
def make (path : String) (update : FileTree → FileTree × Bool) : Work Unit := do
  let (tree, done) := update (← get)
  set tree
  if ! done then throw (.inaccessible path)

/-- Makes sure that a directory is there, and those on the way to it. -/
def makeDirectory (path : String) : Work Unit :=
  make path (·.makeDirectory path)

/-- Writes the file that `names` lead to, and makes the directories on the way. -/
def writeUnder (base : String) (names : List String) (text : String) : Work Unit := do
  make (Path.extend base names.dropLast) (·.makeUnder base names.dropLast)
  writeFile (Path.extend base names) text

end Work

namespace Project

def hasExtension (extension : String) (name : String) : Bool :=
  (Path.splitName name).2 == some extension

/-- The places under `place` that have files with the extension, in the order of their names. -/
def sourcesUnder (tree : FileTree) (place : Place) (extension : String) : List Place :=
  let found := (tree.filesUnder place).filter fun (names, _) =>
    (place ++ names).getLast?.any (hasExtension extension)
  (found.map (·.1)).mergeSort Path.precedes

/--
The source files at or under a path, as lists of names from there. A path that is a file itself is
the empty list.
-/
def discover? (tree : FileTree) (path extension : String) : Option (List Place) :=
  (tree.find? path).map fun place => sourcesUnder tree place extension

def discover (path extension : String) : Work (List Place) := do
  match discover? (← get) path extension with
  | some sources => return sources
  | none => throw (.inaccessible path)

/-- The names that lead from the output directory to what a source file becomes. -/
def targetOf (source : Place) : Place :=
  Path.withExtension "kt" (["src", "main", "kotlin"] ++ source)

/-- The paths that a build has written. -/
structure Report where
  sources : List String := []
  buildFiles : List String := []
  deriving DecidableEq, Repr

/-- Compiles one source file; the answer is the path that was written. -/
def buildSource (config : Config) (dir out : String) (source : Place) : Work String := do
  let text ← Work.readFile (Path.extend dir source)
  let kotlin ← Work.ofExcept (compileSource config (Text.joinWith "/" source) text)
  Work.writeUnder out (targetOf source) kotlin
  return Path.extend out (targetOf source)

/-- Compiles source files in order. -/
def buildSources (config : Config) (dir out : String) : List Place → Work (List String)
  | [] => return []
  | source :: sources => do
    let path ← buildSource config dir out source
    return path :: (← buildSources config dir out sources)

/-- Compiles the module description, if the directory has one. -/
def buildModule (config : Config) (dir out : String) : Work (List String) := do
  let path := Path.join dir config.moduleFile
  if (← get).leadsToFile path then
    let text ← Work.readFile path
    let files ← Work.ofExcept (compileModule config text)
    Work.writeUnder out ["build.gradle"] files.build
    Work.writeUnder out ["settings.gradle"] files.settings
    return [Path.join out "build.gradle", Path.join out "settings.gradle"]
  else return []

/-- Compiles everything under `dir` into `out`. -/
def build (config : Config) (dir out : String) : Work Report := do
  let sources ← discover dir config.sourceExtension
  let sources ← buildSources config dir out sources
  let buildFiles ← buildModule config dir out
  return { sources, buildFiles }

end Project

end QuovaKotlin

import QuovaKotlin.Config.Basic
import QuovaKotlin.Kotlin.File
import QuovaKotlin.Module.Baseline
import QuovaKotlin.Module.Gradle
import QuovaKotlin.Module.Parse
import QuovaKotlin.Project.Path
import QuovaKotlin.Source.Parse
import QuovaKotlin.Text.Uppercase

/-!
# Compiling single units

A source file becomes a Kotlin file, and a module description becomes two Gradle files. Nothing
here touches a file.
-/

set_option autoImplicit false

namespace QuovaKotlin

/-- The text with its first character in upper case. -/
def capitalize (s : String) : String :=
  match s.toList with
  | [] => ""
  | c :: chars => String.ofList (Text.upper c ++ chars)

/-- The class that holds the top-level functions of a file: `src/main.qv` gives `MainQv`. -/
def className (path : String) : String :=
  capitalize ((Path.stem? path).getD "") ++ "Qv"

/-- Compiles the source file with the given path. -/
def compileSource (config : Config) (path text : String) : Except Problem String := do
  let file ← Source.parse text
  return file.kotlin (if config.jvmNameHeader then some (className path) else none)

/-- The two files that a module description becomes. -/
structure GradleFiles where
  build : String
  settings : String
  deriving DecidableEq, Repr

/-- The dependency on the archive of the configuration. -/
def archiveDependency (path : String) : Module.Dependency :=
  .raw ("implementation files('" ++ path ++ "')")

/-- A description with everything that the configuration adds to it. -/
def completeModule (config : Config) (description : Module.Description) : Module.Description :=
  let description := description.withBaseline config.kotlinVersion config.baselineRepository
  { description with
    dependencies := description.dependencies ++ config.stdlibJar.toList.map archiveDependency }

def compileModule (config : Config) (text : String) : Except Problem GradleFiles := do
  let description := completeModule config (← Module.parse text)
  return ⟨description.buildGradle, description.settingsGradle⟩

end QuovaKotlin

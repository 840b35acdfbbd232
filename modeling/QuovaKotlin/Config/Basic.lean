/-!
# Configuration

Every setting has a default, so a configuration need not mention any.
-/

set_option autoImplicit false

namespace QuovaKotlin

structure Config where
  /-- The version of the Kotlin plugin that every build gets. -/
  kotlinVersion : String := "1.4.10"
  /-- The repository that every build gets. -/
  baselineRepository : String := "mavenCentral"
  /-- Whether a compiled file names the class that holds its top-level functions. -/
  jvmNameHeader : Bool := true
  /-- An archive that every build depends on. -/
  stdlibJar : Option String := none
  sourceExtension : String := "qv"
  moduleFile : String := "module.qvm"
  outputDir : String := "build/quova"
  deriving DecidableEq, Repr

end QuovaKotlin

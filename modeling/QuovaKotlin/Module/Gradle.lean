import QuovaKotlin.Module.Basic
import QuovaKotlin.Text.Join

/-!
# Gradle files

The texts of `build.gradle` and `settings.gradle`.
-/

set_option autoImplicit false

namespace QuovaKotlin.Module

open Text

def DependencyKind.gradle : DependencyKind → String
  | implementation => "implementation"
  | compileOnly => "compileOnly"
  | runtimeOnly => "runtimeOnly"

def Plugin.gradle : Plugin → String
  | declared id none => "id '" ++ id ++ "'"
  | declared id (some version) => "id '" ++ id ++ "' version '" ++ version ++ "'"
  | raw text => text

def Repository.gradle : Repository → String
  | named name => name ++ "()"
  | raw text => text

def Dependency.gradle : Dependency → String
  | declared kind group artifact version =>
    kind.gradle ++ " \"" ++ group ++ ":" ++ artifact ++ ":" ++ version ++ "\""
  | raw text => text

def Setting.gradle (setting : Setting) : String :=
  setting.name ++ " = " ++ setting.value

/-- A block with one entry per line, and a blank line behind it; nothing for no entries. -/
def gradleBlock (name : String) (entries : List String) : String :=
  if entries.isEmpty then ""
  else name ++ " \x7b\n" ++ endEach "\n" (entries.map ("\t" ++ ·)) ++ "\x7d\n\n"

namespace Description

/-- The text of `build.gradle`. -/
def buildGradle (d : Description) : String :=
  gradleBlock "plugins" (d.plugins.map (·.gradle)) ++
    "group = \"" ++ d.group ++ "\"\n" ++ "version = \"" ++ d.version ++ "\"\n\n" ++
    gradleBlock "ext" (d.definitions.map (·.gradle)) ++
    gradleBlock "repositories" (d.repositories.map (·.gradle)) ++
    gradleBlock "dependencies" (d.dependencies.map (·.gradle)) ++
    joinWith "\n" (d.options.map (·.gradle ++ "\n"))

/-- The text of `settings.gradle`. -/
def settingsGradle (d : Description) : String :=
  "rootProject.name = '" ++ d.project ++ "'\n"

end Description

end QuovaKotlin.Module

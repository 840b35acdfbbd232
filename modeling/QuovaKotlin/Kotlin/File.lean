import QuovaKotlin.Kotlin.Code

/-!
# Kotlin text of files
-/

set_option autoImplicit false

namespace QuovaKotlin.Ast

open Text

/-- An import; a list of names becomes one import for each. -/
def Import.kotlin (i : Import) : String :=
  if i.names.isEmpty then
    "import " ++ i.path ++ onlyIf i.wildcard ".*" ++
      match i.newName with
      | none => ""
      | some newName => " as " ++ newName
  else lines (i.names.map fun name => "import " ++ i.path ++ "." ++ name)

/-- The text of a value, or nothing. -/
def whenPresent {α : Type} (value : Option α) (f : α → String) : String :=
  match value with
  | none => ""
  | some a => f a

/-- A whole file, under the given class name if there is one. -/
def SourceFile.kotlin (file : SourceFile) (className : Option String) : String :=
  whenPresent file.shebang (· ++ "\n") ++
    whenPresent className (fun name => "@file:JvmName(\"" ++ name ++ "\")\n") ++
    whenPresent file.package (fun package => "package " ++ package ++ "\n\n") ++
    endEach "\n" (file.imports.map (·.kotlin)) ++
    endEach "\n" (file.declarations.map fun declaration => "\n" ++ declaration.kotlin)

end QuovaKotlin.Ast

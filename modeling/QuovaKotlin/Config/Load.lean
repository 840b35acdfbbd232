import QuovaKotlin.Config.Basic
import QuovaKotlin.Problem
import QuovaKotlin.Project.FileTree
import QuovaKotlin.Text.Blank
import QuovaKotlin.Yaml.Mapping

/-!
# Loading configurations

A configuration file sets any of the settings by name, each at most once.
-/

set_option autoImplicit false

namespace QuovaKotlin

namespace Yaml

/-- The tag of one of the types that the language itself knows. -/
def coreTag (type : String) : String :=
  "tag:yaml.org,2002:" ++ type

/-- A truth value; it must be plain, or literal with the tag of truth values. -/
def Scalar.bool? (scalar : Scalar) : Option Bool :=
  if scalar.style = .plain || (scalar.style = .literal && scalar.tag = some (coreTag "bool")) then
    match scalar.text with
    | "true" | "True" | "TRUE" => some true
    | "false" | "False" | "FALSE" => some false
    | _ => none
  else none

/-- Whether a text is a word for the missing value. -/
def isNullWord (text : String) : Bool :=
  ["~", "null", "Null", "NULL"].contains text

/--
A text or the missing value. With the tag of the missing value only a word for it will do, and with
another tag there is always a text; without a tag, the missing value must be plain.
-/
def Scalar.optional? (scalar : Scalar) : Option (Option String) :=
  match scalar.tag with
  | some tag =>
    if tag ≠ coreTag "null" then some (some scalar.text)
    else if isNullWord scalar.text then some none
    else none
  | none =>
    if scalar.style = .plain && (scalar.text.isEmpty || isNullWord scalar.text) then some none
    else some (some scalar.text)

end Yaml

namespace Config

open Yaml (Scalar)

/-- Changes one setting. -/
def set (config : Config) (key : String) (value : Scalar) : Option Config :=
  match key with
  | "kotlin_version" => some { config with kotlinVersion := value.text }
  | "baseline_repository" => some { config with baselineRepository := value.text }
  | "jvm_name_header" => value.bool?.map fun flag => { config with jvmNameHeader := flag }
  | "stdlib_jar" => value.optional?.map fun jar => { config with stdlibJar := jar }
  | "source_extension" => some { config with sourceExtension := value.text }
  | "module_file" => some { config with moduleFile := value.text }
  | "output_dir" => some { config with outputDir := value.text }
  | _ => none

/-- Changes the settings of all entries. -/
def setAll (config : Config) : List Yaml.Entry → Option Config
  | [] => some config
  | (key, value) :: entries =>
    if entries.any (·.1 == key) then none else (config.set key value).bind (·.setAll entries)

/-- The configuration that a text describes; a blank text leaves every default. -/
def ofYaml? (text : String) : Option Config :=
  if (Text.trim text).isEmpty then some {}
  else (Yaml.entries? text).bind (Config.setAll {})

/-- The configuration in a file. -/
def load (tree : FileTree) (path : String) : Except Problem Config :=
  match tree.read? path with
  | none => .error (.inaccessible path)
  | some text =>
    match ofYaml? text with
    | some config => .ok config
    | none => .error (.misconfigured path)

end Config

end QuovaKotlin

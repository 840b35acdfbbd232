/-!
# Module descriptions

What a module description says about a project: its coordinates, and the plugins, repositories,
dependencies and settings of its build. Raw entries are passed on to the build file as they are.
-/

set_option autoImplicit false

namespace QuovaKotlin.Module

inductive Plugin
  | declared (id : String) (version : Option String)
  | raw (text : String)
  deriving DecidableEq, Repr

inductive Repository
  | named (name : String)
  | raw (text : String)
  deriving DecidableEq, Repr

inductive DependencyKind
  | implementation
  | compileOnly
  | runtimeOnly
  deriving DecidableEq, Repr

inductive Dependency
  | declared (kind : DependencyKind) (group artifact version : String)
  | raw (text : String)
  deriving DecidableEq, Repr

structure Setting where
  name : String
  value : String
  deriving DecidableEq, Repr

structure Description where
  project : String
  group : String
  version : String
  plugins : List Plugin
  repositories : List Repository
  dependencies : List Dependency
  /-- `var name = value` -/
  definitions : List Setting
  /-- `name = value` -/
  options : List Setting
  deriving DecidableEq, Repr

def DependencyKind.ofKeyword? : String → Option DependencyKind
  | "impl" => some .implementation
  | "compile" => some .compileOnly
  | "runtime" => some .runtimeOnly
  | _ => none

end QuovaKotlin.Module

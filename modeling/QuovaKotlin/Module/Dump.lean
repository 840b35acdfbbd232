import QuovaKotlin.Json.Basic
import QuovaKotlin.Module.Basic

/-!
# Dumps of module descriptions
-/

set_option autoImplicit false

namespace QuovaKotlin.Module

open Json (tagged ofOption)

def DependencyKind.tag : DependencyKind → String
  | implementation => "Implementation"
  | compileOnly => "CompileOnly"
  | runtimeOnly => "RuntimeOnly"

def Plugin.dump : Plugin → Json
  | declared id version =>
    tagged "A" (.object [("id", .text id), ("version", ofOption .text version)])
  | raw text => tagged "B" (.text text)

def Repository.dump : Repository → Json
  | named name => tagged "Named" (.text name)
  | raw text => tagged "Raw" (.text text)

def Dependency.dump : Dependency → Json
  | declared kind group artifact version =>
    tagged "A" (.object [
      ("kind", .text kind.tag),
      ("group", .text group),
      ("artifact", .text artifact),
      ("version", .text version)])
  | raw text => tagged "B" (.text text)

def Setting.dump (setting : Setting) : Json :=
  .object [("name", .text setting.name), ("value", .text setting.value)]

def Description.dump (d : Description) : Json :=
  .object [
    ("project", .text d.project),
    ("group", .text d.group),
    ("version", .text d.version),
    ("plugins", .list (d.plugins.map (·.dump))),
    ("repositories", .list (d.repositories.map (·.dump))),
    ("dependencies", .list (d.dependencies.map (·.dump))),
    ("variables", .list (d.definitions.map (·.dump))),
    ("options", .list (d.options.map (·.dump)))]

end QuovaKotlin.Module

import QuovaKotlin.Module.Rule
import QuovaKotlin.Peg.Pattern

/-!
# The module grammar

A module description has three headers, followed by blocks and settings in any order. The value of
a setting is the rest of its line, and a raw entry is whatever stands between two backticks.
-/

set_option autoImplicit false

namespace QuovaKotlin.Module

open Peg
open Peg.Pattern (all oneOf plus words newline anyExcept)
open Rule

private instance : Coe Rule (Pattern Rule) := ⟨.rule⟩

private instance : Coe String (Pattern Rule) := ⟨.lit⟩

namespace Grammar

/-- A character of a name. -/
def nameChar : Pattern Rule :=
  oneOf [.char .alphanumeric, "_", "-"]

/-- One of the given texts, as a whole word. -/
def word (texts : List String) : Pattern Rule :=
  .seq (words texts) (.absent nameChar)

/-- A blank between the word `raw` and its text. -/
def blank : Pattern Rule :=
  words [" ", "\t", "\r", "\n"]

/-- What may stand behind the headers. -/
def element : Pattern Rule :=
  oneOf [plugins, repositories, dependencies, variableSetting, optionSetting]

def body : Rule → Pattern Rule
  | .endOfInput => .stop
  | .moduleFile =>
    all [.start, projectHeader, groupHeader, versionHeader, .star element, endOfInput]
  | .projectHeader => all [kwProject, name, .optional ";"]
  | .groupHeader => all [kwGroup, name, .optional ";"]
  | .versionHeader => all [kwVersion, versionName, .optional ";"]
  | .plugins => all [kwPlugins, "\x7b", .star plugin, "\x7d"]
  | .plugin =>
    oneOf [raw, all [name, .optional (all [kwVersion, versionName]), .optional ";"]]
  | .repositories => all [kwRepositories, "\x7b", .star repository, "\x7d"]
  | .repository => oneOf [raw, all [name, .optional ";"]]
  | .dependencies => all [kwDependencies, "\x7b", .star dependency, "\x7d"]
  | .dependency =>
    oneOf [raw, all [dependencyKind, name, ":", name, ":", versionName, .optional ";"]]
  | .dependencyKind => word ["impl", "compile", "runtime"]
  | .variableSetting => all [kwVar, name, "=", text]
  | .optionSetting => all [name, "=", text]
  | .text => plus (anyExcept newline)
  | .raw => all [kwRaw, .star blank, "`", rawContent, "`"]
  | .rawContent => .star (anyExcept "`")
  | .name => all [.absent keyword, plus nameChar, .star (all [".", plus nameChar])]
  | .versionName => plus (oneOf [all ["$\x7b", plus nameChar, "\x7d"], nameChar, ".", "+"])
  | .keyword =>
    word ["repositories", "dependencies", "project", "plugins", "version", "compile", "runtime",
      "group", "impl", "raw", "var"]
  | .kwProject => word ["project"]
  | .kwGroup => word ["group"]
  | .kwVersion => word ["version"]
  | .kwPlugins => word ["plugins"]
  | .kwRepositories => word ["repositories"]
  | .kwDependencies => word ["dependencies"]
  | .kwVar => word ["var"]
  | .kwRaw => word ["raw"]

/-- Words, names and verbatim texts are atomic. -/
def kind : Rule → RuleKind
  | .dependencyKind | .text | .rawContent | .name | .versionName | .keyword | .kwProject |
    .kwGroup | .kwVersion | .kwPlugins | .kwRepositories | .kwDependencies | .kwVar | .kwRaw =>
    .atomic
  | .raw => .compound
  | _ => .normal

end Grammar

/-- The grammar of module descriptions. -/
def grammar : Peg.Grammar Rule where
  kind := Grammar.kind
  body := Grammar.body
  name := Rule.label
  rules := Rule.list

end QuovaKotlin.Module

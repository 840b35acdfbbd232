/-!
# Rules of the module grammar

The names of the rules, in the order in which diagnostics list them.
-/

set_option autoImplicit false

namespace QuovaKotlin.Module

inductive Rule
  | endOfInput
  | moduleFile
  | projectHeader
  | groupHeader
  | versionHeader
  | plugins
  | plugin
  | repositories
  | repository
  | dependencies
  | dependency
  | dependencyKind
  | variableSetting
  | optionSetting
  | text
  | raw
  | rawContent
  | name
  | versionName
  | keyword
  | kwProject
  | kwGroup
  | kwVersion
  | kwPlugins
  | kwRepositories
  | kwDependencies
  | kwVar
  | kwRaw
  deriving DecidableEq, Repr

namespace Rule

/-- The name of a rule in diagnostics. -/
def label : Rule → String
  | .endOfInput => "EOI"
  | .moduleFile => "module_file"
  | .projectHeader => "project_header"
  | .groupHeader => "group_header"
  | .versionHeader => "version_header"
  | .plugins => "plugins"
  | .plugin => "plugin"
  | .repositories => "repositories"
  | .repository => "repository"
  | .dependencies => "dependencies"
  | .dependency => "dependency"
  | .dependencyKind => "dependency_kind"
  | .variableSetting => "variable"
  | .optionSetting => "option"
  | .text => "text"
  | .raw => "raw"
  | .rawContent => "raw_content"
  | .name => "name"
  | .versionName => "version_name"
  | .keyword => "keyword"
  | .kwProject => "kw_project"
  | .kwGroup => "kw_group"
  | .kwVersion => "kw_version"
  | .kwPlugins => "kw_plugins"
  | .kwRepositories => "kw_repositories"
  | .kwDependencies => "kw_dependencies"
  | .kwVar => "kw_var"
  | .kwRaw => "kw_raw"

/-- Every rule, in listing order. -/
def list : List Rule := [
  .endOfInput, .moduleFile, .projectHeader, .groupHeader, .versionHeader, .plugins, .plugin,
  .repositories, .repository, .dependencies, .dependency, .dependencyKind, .variableSetting,
  .optionSetting, .text, .raw, .rawContent, .name, .versionName, .keyword, .kwProject, .kwGroup,
  .kwVersion, .kwPlugins, .kwRepositories, .kwDependencies, .kwVar, .kwRaw]

end Rule

end QuovaKotlin.Module

import QuovaKotlin.Module.Basic
import QuovaKotlin.Module.Rule
import QuovaKotlin.Reading.Basic
import QuovaKotlin.Text.Blank

/-!
# Reading module descriptions
-/

set_option autoImplicit false

namespace QuovaKotlin.Module

open Reading

instance : Labeled Rule := ⟨Rule.label⟩

/-- A tree of the module grammar. -/
abbrev Node := Peg.ParseTree Rule

/-- The text of a child, without blanks at its ends. -/
def trimmedTextOf (node : Node) (rule : Rule) : Read String :=
  Text.trim <$> textOf node rule

/-- The text of a raw entry, if the node is one. -/
def readRaw (node : Node) : Read (Option String) :=
  atMostOne node .raw (trimmedTextOf · .rawContent)

def readPlugin (node : Node) : Read Plugin := do
  match ← readRaw node with
  | some text => return .raw text
  | none => return .declared (← trimmedTextOf node .name) (textOf? node .versionName)

def readRepository (node : Node) : Read Repository := do
  match ← readRaw node with
  | some text => return .raw text
  | none => .named <$> trimmedTextOf node .name

/-- `kind group:artifact:version` -/
def readDeclaredDependency (node : Node) : Read Dependency :=
  match node.childrenOf .name with
  | group :: artifact :: _ => do
    let kind ← one node .dependencyKind (meaning DependencyKind.ofKeyword?)
    let version ← trimmedTextOf node .versionName
    return .declared kind group.text artifact.text version
  | _ => missing node "group, artifact and version"

def readDependency (node : Node) : Read Dependency := do
  match ← readRaw node with
  | some text => return .raw text
  | none => readDeclaredDependency node

def readSetting (node : Node) : Read Setting := do
  return ⟨← trimmedTextOf node .name, ← trimmedTextOf node .text⟩

/-- The entries of all blocks made by `block`, in order. -/
def readBlocks {α : Type} (node : Node) (block entry : Rule) (read : Node → Read α) :
    Read (List α) :=
  List.flatten <$> each node block fun block => each block entry read

def readDescription (node : Node) : Read Description := do
  return {
    project := ← one node .projectHeader (trimmedTextOf · .name)
    group := ← one node .groupHeader (trimmedTextOf · .name)
    version := ← one node .versionHeader (trimmedTextOf · .versionName)
    plugins := ← readBlocks node .plugins .plugin readPlugin
    repositories := ← readBlocks node .repositories .repository readRepository
    dependencies := ← readBlocks node .dependencies .dependency readDependency
    definitions := ← each node .variableSetting readSetting
    options := ← each node .optionSetting readSetting }

end QuovaKotlin.Module

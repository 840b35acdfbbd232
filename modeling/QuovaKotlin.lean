import QuovaKotlin.Ast.Basic
import QuovaKotlin.Ast.Constant
import QuovaKotlin.Ast.Dump
import QuovaKotlin.Ast.Modifier
import QuovaKotlin.Ast.Operator
import QuovaKotlin.Ast.Priority
import QuovaKotlin.Ast.Query
import QuovaKotlin.Ast.SizedArray
import QuovaKotlin.Ast.TypeRef
import QuovaKotlin.Choice
import QuovaKotlin.Cli.Arguments
import QuovaKotlin.Cli.Run
import QuovaKotlin.Compile
import QuovaKotlin.Config.Basic
import QuovaKotlin.Config.Load
import QuovaKotlin.Json.Basic
import QuovaKotlin.Json.Pretty
import QuovaKotlin.Kotlin.Code
import QuovaKotlin.Kotlin.File
import QuovaKotlin.Kotlin.Operators
import QuovaKotlin.Kotlin.Types
import QuovaKotlin.Main
import QuovaKotlin.Module.Baseline
import QuovaKotlin.Module.Basic
import QuovaKotlin.Module.Dump
import QuovaKotlin.Module.Gradle
import QuovaKotlin.Module.Grammar
import QuovaKotlin.Module.Parse
import QuovaKotlin.Module.Reading
import QuovaKotlin.Module.Rule
import QuovaKotlin.Peg.Attempts
import QuovaKotlin.Peg.Layout
import QuovaKotlin.Peg.ParseTree
import QuovaKotlin.Peg.Pattern
import QuovaKotlin.Peg.Run
import QuovaKotlin.Precedence.Grouping
import QuovaKotlin.Problem
import QuovaKotlin.Project.Build
import QuovaKotlin.Project.FileTree
import QuovaKotlin.Project.Path
import QuovaKotlin.Proofs.ArrayTypes
import QuovaKotlin.Proofs.AssignedValues
import QuovaKotlin.Proofs.AssignmentReadings
import QuovaKotlin.Proofs.Attempts
import QuovaKotlin.Proofs.BalancedTexts
import QuovaKotlin.Proofs.Baselines
import QuovaKotlin.Proofs.Brackets
import QuovaKotlin.Proofs.Builds
import QuovaKotlin.Proofs.CallChains
import QuovaKotlin.Proofs.Chunks
import QuovaKotlin.Proofs.ClassBodies
import QuovaKotlin.Proofs.ClassHeaders
import QuovaKotlin.Proofs.ClassicLoops
import QuovaKotlin.Proofs.ConstantNumbering
import QuovaKotlin.Proofs.ConstantNumbers
import QuovaKotlin.Proofs.ConstantTexts
import QuovaKotlin.Proofs.DanglingElse
import QuovaKotlin.Proofs.DefaultVisibility
import QuovaKotlin.Proofs.DelegatedClasses
import QuovaKotlin.Proofs.Diagnostics
import QuovaKotlin.Proofs.DictionaryEntries
import QuovaKotlin.Proofs.Discovery
import QuovaKotlin.Proofs.ElementaryReadings
import QuovaKotlin.Proofs.Evaluation
import QuovaKotlin.Proofs.FileTrees
import QuovaKotlin.Proofs.GradleLines
import QuovaKotlin.Proofs.Identifiers
import QuovaKotlin.Proofs.KotlinGrouping
import QuovaKotlin.Proofs.KotlinTokens
import QuovaKotlin.Proofs.Lexemes
import QuovaKotlin.Proofs.Lookahead
import QuovaKotlin.Proofs.MemberBuckets
import QuovaKotlin.Proofs.ModuleDrafts
import QuovaKotlin.Proofs.ModuleLexemes
import QuovaKotlin.Proofs.ModuleTexts
import QuovaKotlin.Proofs.ModuleTokens
import QuovaKotlin.Proofs.NearestIf
import QuovaKotlin.Proofs.NestedBrackets
import QuovaKotlin.Proofs.OperatorSymbols
import QuovaKotlin.Proofs.OperatorTrees
import QuovaKotlin.Proofs.ParseTrees
import QuovaKotlin.Proofs.Parts
import QuovaKotlin.Proofs.Paths
import QuovaKotlin.Proofs.Placement
import QuovaKotlin.Proofs.PlainExpressions
import QuovaKotlin.Proofs.Precedence
import QuovaKotlin.Proofs.PrefixChains
import QuovaKotlin.Proofs.PrintedGroups
import QuovaKotlin.Proofs.PrintedParts
import QuovaKotlin.Proofs.PrintedRows
import QuovaKotlin.Proofs.Probing
import QuovaKotlin.Proofs.Progress
import QuovaKotlin.Proofs.Reading.Alike
import QuovaKotlin.Proofs.Reading.Declarations
import QuovaKotlin.Proofs.Reading.Expressions
import QuovaKotlin.Proofs.Reading.Faults
import QuovaKotlin.Proofs.Reading.File
import QuovaKotlin.Proofs.Reading.FileAlike
import QuovaKotlin.Proofs.Reading.FileOrigins
import QuovaKotlin.Proofs.Reading.Inversion
import QuovaKotlin.Proofs.Reading.Origins
import QuovaKotlin.Proofs.Reading.Readers
import QuovaKotlin.Proofs.Reading.Settling
import QuovaKotlin.Proofs.Reading.Statements
import QuovaKotlin.Proofs.Reading.Types
import QuovaKotlin.Proofs.Relayout
import QuovaKotlin.Proofs.Shifting
import QuovaKotlin.Proofs.SourceRows
import QuovaKotlin.Proofs.SourceTokens
import QuovaKotlin.Proofs.Steps
import QuovaKotlin.Proofs.Stores
import QuovaKotlin.Proofs.SwitchConditions
import QuovaKotlin.Proofs.Termination
import QuovaKotlin.Proofs.Terms
import QuovaKotlin.Proofs.TypeTexts
import QuovaKotlin.Proofs.WellFormedness
import QuovaKotlin.Proofs.Words
import QuovaKotlin.Reading.Basic
import QuovaKotlin.Reading.Declarations
import QuovaKotlin.Reading.Expressions
import QuovaKotlin.Reading.File
import QuovaKotlin.Reading.Operators
import QuovaKotlin.Reading.Readers
import QuovaKotlin.Reading.Statements
import QuovaKotlin.Reading.Types
import QuovaKotlin.Source.Grammar
import QuovaKotlin.Source.Parse
import QuovaKotlin.Source.Rule
import QuovaKotlin.Text.Blank
import QuovaKotlin.Text.Bytes
import QuovaKotlin.Text.Join
import QuovaKotlin.Text.Uppercase
import QuovaKotlin.Yaml.Block
import QuovaKotlin.Yaml.Gap
import QuovaKotlin.Yaml.Glyph
import QuovaKotlin.Yaml.Inline
import QuovaKotlin.Yaml.Mapping
import QuovaKotlin.Yaml.Tag
import QuovaKotlin.Yaml.Token

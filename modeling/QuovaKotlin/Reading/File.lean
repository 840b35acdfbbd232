import QuovaKotlin.Reading.Declarations
import QuovaKotlin.Reading.Statements
import QuovaKotlin.Text.Blank

/-!
# Reading files

The knot of the readers is tied here. A tree of height `n` is read with the readers of level `n`,
whose parts are read with the readers of level `n - 1`.
-/

set_option autoImplicit false

namespace QuovaKotlin.Reading

open Ast

/-- The readers of a tree, given those of its parts. -/
def Readers.next (parts : Readers) : Readers where
  expression := readExpression parts
  statement := readStatement parts
  declaration := readDeclaration parts
  conditions := readConditions parts

/-- The readers for trees of the given height. -/
def Readers.ofHeight : Nat → Readers
  | 0 => .none
  | height + 1 => (Readers.ofHeight height).next

def readImport (node : Node) : Read Import := do
  let names ← listUnder node .importList fun list =>
    return (list.childrenOf .simpleIdentifier).map (·.text)
  let newName ← atMostOne node .importAlias nameOf
  let path ← textOf node .identifier
  return ⟨path, node.has .importAll, names, newName⟩

/-- A file; two imports that every file needs are put behind its own. -/
def readFile (node : Node) : Read SourceFile := do
  let shebang := (textOf? node .shebangLine).map Text.trimEnd
  let package ← atMostOne node .packageHeader fun header => textOf header .identifier
  let imports ← each node .importHeader readImport
  let declarations ←
    each node .declaration ((Readers.ofHeight node.height).declaration .member)
  return {
    shebang
    package
    imports := imports ++ [.standardLibrary, .integerAlias]
    declarations }

end QuovaKotlin.Reading

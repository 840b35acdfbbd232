import QuovaKotlin.Peg.Run
import QuovaKotlin.Reading.File
import QuovaKotlin.Source.Grammar

/-!
# Parsing source files
-/

set_option autoImplicit false

namespace QuovaKotlin.Source

/-- The parse tree of a source file. -/
def parseTree (text : String) : Except Problem Reading.Node :=
  (grammar.parse .quovaFile text).mapError fun attempts =>
    .rejected (Text.byteOffset text attempts.furthest) (grammar.expectation attempts)

/-- The syntax tree of a source file. -/
def parse (text : String) : Except Problem Ast.SourceFile := do
  (Reading.readFile (← parseTree text)).mapError (·.problem text)

end QuovaKotlin.Source

import QuovaKotlin.Module.Grammar
import QuovaKotlin.Module.Reading
import QuovaKotlin.Peg.Run

/-!
# Parsing module descriptions
-/

set_option autoImplicit false

namespace QuovaKotlin.Module

/-- The parse tree of a module description. -/
def parseTree (text : String) : Except Problem Node :=
  (grammar.parse .moduleFile text).mapError fun attempts =>
    .rejected (Text.byteOffset text attempts.furthest) (grammar.expectation attempts)

def parse (text : String) : Except Problem Description := do
  (readDescription (← parseTree text)).mapError (·.problem text)

end QuovaKotlin.Module

import QuovaKotlin.Ast.Basic

/-!
# Parts of a file
-/

set_option autoImplicit false

namespace QuovaKotlin.Ast

namespace SourceFile

/-- The initial value of the first property, if the file starts with a property. -/
def firstValue? (file : SourceFile) : Option Expression :=
  match file.declarations with
  | .property declaration :: _ => declaration.properties.head?.bind (·.value)
  | _ => none

/-- The statements of the first function, if the file starts with a function that has a block. -/
def firstBlock? (file : SourceFile) : Option (List Statement) :=
  match file.declarations with
  | .function declaration :: _ =>
    match declaration.body with
    | .block statements => some statements
    | _ => none
  | _ => none

/-- The values of the constants of every enum over a primitive, with the name of the enum. -/
def constantGroups (file : SourceFile) : List (String × List Expression) :=
  file.declarations.filterMap fun declaration =>
    match declaration with
    | .type _ _ name (.constants bitfield _ entries) =>
      some (name, constantValues bitfield entries)
    | _ => none

end SourceFile

end QuovaKotlin.Ast

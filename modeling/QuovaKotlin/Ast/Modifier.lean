/-!
# Modifiers

The closed sets of keywords that stand in front of declarations and type arguments.
-/

set_option autoImplicit false

namespace QuovaKotlin.Ast

/-- Who may see a declaration. A `localAccess` declaration is a statement of a function body. -/
inductive Visibility
  | publicAccess
  | privateAccess
  | internalAccess
  | protectedAccess
  | localAccess
  deriving DecidableEq, Repr

inductive Inheritance
  | final
  | abstract
  deriving DecidableEq, Repr

/-- The variance keywords `in` and `out`. -/
inductive Variance
  | contravariant
  | covariant
  deriving DecidableEq, Repr

inductive FunctionModifier
  | inline
  | tailrec
  | static
  | default
  | suspend
  | strictfp
  | synchronized
  | native
  deriving DecidableEq, Repr

inductive PropertyModifier
  | const
  | readonly
  | static
  | volatile
  | transient
  deriving DecidableEq, Repr

/-- There is no keyword for local access. -/
def Visibility.ofKeyword? : String → Option Visibility
  | "public" => some .publicAccess
  | "private" => some .privateAccess
  | "protected" => some .protectedAccess
  | "internal" => some .internalAccess
  | _ => none

def Inheritance.ofKeyword? : String → Option Inheritance
  | "final" => some .final
  | "abstract" => some .abstract
  | _ => none

def Variance.ofKeyword? : String → Option Variance
  | "in" => some .contravariant
  | "out" => some .covariant
  | _ => none

def FunctionModifier.ofKeyword? : String → Option FunctionModifier
  | "inline" => some .inline
  | "tailrec" => some .tailrec
  | "static" => some .static
  | "default" => some .default
  | "suspend" => some .suspend
  | "strictfp" => some .strictfp
  | "synchronized" => some .synchronized
  | "native" => some .native
  | _ => none

def PropertyModifier.ofKeyword? : String → Option PropertyModifier
  | "const" => some .const
  | "readonly" => some .readonly
  | "static" => some .static
  | "volatile" => some .volatile
  | "transient" => some .transient
  | _ => none

def Visibility.tag : Visibility → String
  | publicAccess => "Public"
  | privateAccess => "Private"
  | internalAccess => "Internal"
  | protectedAccess => "Protected"
  | localAccess => "Local"

def Inheritance.tag : Inheritance → String
  | final => "Final"
  | abstract => "Abstract"

def Variance.tag : Variance → String
  | contravariant => "In"
  | covariant => "Out"

def FunctionModifier.tag : FunctionModifier → String
  | inline => "Inline"
  | tailrec => "Tailrec"
  | static => "Static"
  | default => "Default"
  | suspend => "Suspend"
  | strictfp => "Strictfp"
  | synchronized => "Synchronized"
  | native => "Native"

def PropertyModifier.tag : PropertyModifier → String
  | const => "Const"
  | readonly => "Readonly"
  | static => "Static"
  | volatile => "Volatile"
  | transient => "Transient"

end QuovaKotlin.Ast

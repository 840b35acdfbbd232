import QuovaKotlin.Kotlin.Operators
import QuovaKotlin.Kotlin.Types

/-!
# Kotlin text of expressions, statements and declarations

One recursion over the whole family of syntax trees. What needs no recursion (choosing keywords,
placing a trailing lambda, laying out a body) is done by the small functions in front of it, on
texts that are already rendered.
-/

set_option autoImplicit false

namespace QuovaKotlin.Ast

open Text

def Literal.kotlin : Literal → String
  | string text | multilineString text | integer text | long text | real text | char text => text
  | this => "this"
  | super none => "super"
  | super (some type) => "super<" ++ type.kotlin ++ ">"
  | boolean value => if value then "true" else "false"
  | null => "null"
  | void => "Unit"

def Expression.isPrefixed : Expression → Bool
  | .prefixed .. => true
  | _ => false

/-- Whether an argument may move behind the parentheses of its call. -/
def Argument.isPositionalLambda : Argument → Bool
  | ⟨none, .lambda ..⟩ => true
  | _ => false

/--
The arguments of a call. A lambda that comes last moves behind the parentheses, and parentheses
with nothing left in them are dropped.
-/
def callList (arguments : List Argument) (texts : List String) : String :=
  match arguments.getLast?, texts.getLast? with
  | some last, some text =>
    if last.isPositionalLambda then
      let others := texts.dropLast
      onlyIf (! others.isEmpty) ("(" ++ commas others ++ ")") ++ " " ++ text
    else "(" ++ commas texts ++ ")"
  | _, _ => "(" ++ commas texts ++ ")"

/-- `(a, b)`, or nothing for an empty list. -/
def nonemptyList (texts : List String) : String :=
  if texts.isEmpty then "" else "(" ++ commas texts ++ ")"

/-- `name = `, or nothing. -/
def nameMark : Option String → String
  | none => ""
  | some name => name ++ " = "

/-- An array of a primitive has its own factory; any other array names its element type. -/
def arrayFactory (element : TypeRef) : String :=
  match element with
  | ⟨.primitive ⟨kind, false⟩, 0, false⟩ => kind.arrayFactory
  | type => "arrayOf<" ++ type.kotlin ++ ">"

def ConditionKind.before : ConditionKind → String → String
  | case, value => value
  | inside negated, value => onlyIf negated "!" ++ "in " ++ value
  | ofType negated, value => onlyIf negated "!" ++ "is " ++ value

def Visibility.kotlin : Visibility → String
  | publicAccess => "public "
  | privateAccess => "private "
  | internalAccess => "internal "
  | protectedAccess => "protected "
  | localAccess => ""

def ClassModifiers.kotlin (modifiers : ClassModifiers) : String :=
  (if modifiers.isSealed then "sealed "
    else match modifiers.inheritance with
      | some .abstract => "abstract "
      | some .final => ""
      | none => "open ") ++
    onlyIf modifiers.isInner "inner "

def inheritanceMark : Option Inheritance → String
  | some .abstract => "abstract "
  | some .final => "final "
  | none => ""

/-- The Kotlin keyword of a modifier; the others become annotations or nothing. -/
def FunctionModifier.keyword : FunctionModifier → String
  | inline => "inline "
  | tailrec => "tailrec "
  | suspend => "suspend "
  | native => "external "
  | static | default | strictfp | synchronized => ""

def TypeParameterMark.kotlin : TypeParameterMark → String
  | reified present => onlyIf present "reified "
  | variance none => ""
  | variance (some v) => v.kotlin ++ " "

def DelegationTarget.kotlin : DelegationTarget → String
  | this => "this"
  | super => "super"

/-- The annotation that Kotlin writes as a modifier. -/
def AnnotationUse.isOverride (use : AnnotationUse) : Bool :=
  use.name == "Override"

/--
The lines and modifiers of a declaration that annotations decide: one line each, but `override` as
a modifier behind the visibility.
-/
def annotatedVisibility (annotations : List AnnotationUse) (texts : List String)
    (visibility : Visibility) : String :=
  let others := (annotations.zip texts).filter fun (use, _) => ! use.isOverride
  endEach "\n" (others.map (·.2)) ++ visibility.kotlin ++
    onlyIf (annotations.any (·.isOverride)) "override "

/-- `@Throws` with the class of every exception, on a line of its own. -/
def throwsLine (exceptions : List UserType) : String :=
  if exceptions.isEmpty then ""
  else "@Throws(" ++ commas (exceptions.map fun type => type.kotlin ++ "::class") ++ ")\n"

/-- Instance members, then the static ones in a companion object. -/
def memberList (instances statics : List String) : String :=
  let companion :=
    if statics.isEmpty then ""
    else onlyIf (! instances.isEmpty) "\n" ++ "companion object \x7b\n" ++ lines statics ++ "\n\x7d"
  lines instances ++ companion

/-- The body of a class-like declaration, or nothing. -/
def memberBody (instances statics : List String) : String :=
  if instances.isEmpty && statics.isEmpty then ""
  else " \x7b\n" ++ memberList instances statics ++ "\n\x7d"

/-- ` : A, B(x)`, or nothing. -/
def supertypeList (texts : List String) : String :=
  if texts.isEmpty then "" else " : " ++ commas texts

/-- Where a parameter stands, which decides whether it is a property as well. -/
inductive ParameterRole
  /-- A parameter of a function: never a property. -/
  | value
  /-- A parameter of a class: a property if it is mutable. -/
  | primary
  /-- A component of a record: always a property. -/
  | component
  deriving DecidableEq, Repr

def ParameterRole.keyword (role : ParameterRole) (isMutable : Bool) : String :=
  match role, isMutable with
  | value, _ => ""
  | _, true => "var "
  | primary, false => ""
  | component, false => "val "

/-- The names of type parameters with their constraints. -/
def TypeParameter.bounds (parameters : List TypeParameter) : List (String × List TypeRef) :=
  parameters.map fun parameter => (parameter.name, parameter.constraints)

/-- One line per statement between braces; nothing between them when there is no statement. -/
def blockText (statements : List String) : String :=
  if statements.isEmpty then "\x7b\x7d" else "\x7b\n" ++ endEach "\n" statements ++ "\x7d"

/-- A jump with the label it leaves for. -/
def jumpText (keyword : String) : Option String → String
  | none => keyword
  | some label => keyword ++ "@" ++ label

/-- `const val N: T = v`, one line for each constant. -/
def constantLines (type : PrimitiveType) (bitfield : Bool)
    (entries : List (ConstantEntry Rendered)) : List String :=
  (entries.zip (Rendered.counting.values bitfield entries)).map fun (entry, value) =>
    "const val " ++ entry.name ++ ": " ++ type.kotlin ++ " = " ++ value.text

/-- Everything in front of the name of a property, the same for each property of a declaration. -/
def propertyHead (annotations : List AnnotationUse) (texts : List String)
    (visibility : Visibility) (inheritance : Option Inheritance)
    (modifiers : List PropertyModifier) : String :=
  let immutable :=
    modifiers.contains .const || modifiers.contains .readonly || inheritance == some .final
  onlyIf (modifiers.contains .transient) "@Transient\n" ++
    onlyIf (modifiers.contains .volatile) "@Volatile\n" ++
    annotatedVisibility annotations texts visibility ++
    onlyIf (inheritance == some .abstract) "abstract " ++
    onlyIf (modifiers.contains .const) "const " ++
    (if immutable then "val " else "var ")

mutual

def Expression.kotlin : Expression → String
  | .literal value => value.kotlin
  | .identifier name => name
  | .construct type arguments =>
    type.kotlin ++ callList arguments (Argument.kotlinEach arguments)
  | .arrayOf element elements =>
    arrayFactory element ++ "(" ++ commas (Argument.kotlinEach elements) ++ ")"
  | .initializer elements =>
    "quova.internal.fittingArray(" ++ commas (Argument.kotlinEach elements) ++ ")"
  | .dictionary entries => "hashMapOf(" ++ commas (DictionaryEntry.kotlinEach entries) ++ ")"
  | .lambda parameters body =>
    let parameters := LambdaParameter.kotlinEach parameters
    "\x7b" ++ onlyIf (! parameters.isEmpty) (" " ++ commas parameters ++ " ->") ++ body.kotlin ++
      "\x7d"
  | .switch subject branches fallback =>
    let head :=
      match subject with
      | none => "when"
      | some subject => "when (" ++ subject.kotlin ++ ")"
    let last :=
      match fallback with
      | none => ""
      | some body => "else -> " ++ body.kotlin ++ "\n"
    head ++ " \x7b\n" ++ endEach "\n" (Branch.kotlinEach branches) ++ last ++ "\x7d"
  | .parenthesized inner => "(" ++ inner.kotlin ++ ")"
  | .suffixed operand operator =>
    Rendered.under ⟨operand.priority, operand.kotlin⟩ Priority.suffixed ++ operator.kotlin
  | .prefixed operator operand =>
    operator.before ⟨operand.priority, operand.kotlin⟩ operand.isPrefixed
  | .cast operand type safe =>
    Rendered.under ⟨operand.priority, operand.kotlin⟩ Priority.prefixed ++ " as" ++
      onlyIf safe "?" ++ " " ++ type.kotlin
  | .binary operator left right =>
    (Rendered.join operator ⟨left.priority, left.kotlin⟩ ⟨right.priority, right.kotlin⟩).text
  | .ternary condition consequent alternative =>
    "if (" ++ condition.kotlin ++ ") " ++
      Rendered.under ⟨consequent.priority, consequent.kotlin⟩ Priority.ternary ++ " else " ++
      Rendered.under ⟨alternative.priority, alternative.kotlin⟩ Priority.ternary
  | .spread operand => "*" ++ Rendered.under ⟨operand.priority, operand.kotlin⟩ Priority.spread
  | .assign target operator value =>
    operator.asValue target.kotlin ⟨value.priority, value.kotlin⟩
  | .comprehension mapping item source condition =>
    let filter :=
      match condition with
      | none => ""
      | some condition =>
        ".filter \x7b " ++ item.kotlin ++ " -> " ++ condition.kotlin ++ " \x7d"
    Rendered.under ⟨source.priority, source.kotlin⟩ Priority.suffixed ++ filter ++ ".map \x7b " ++
      item.kotlin ++ " -> " ++ mapping.kotlin ++ " \x7d"

def PostfixOperator.kotlin : PostfixOperator → String
  | .increment => "++"
  | .decrement => "--"
  | .notNull => "!!"
  | .invocation typeArguments arguments =>
    angleList (TypeArgument.kotlinEach typeArguments) ++
      callList arguments (Argument.kotlinEach arguments)
  | .indexing indices => "[" ++ commas (Expression.kotlinEach indices) ++ "]"
  | .call kind target => kind.symbol ++ target.kotlin

def Argument.kotlin : Argument → String
  | ⟨name, value⟩ => nameMark name ++ value.kotlin

def DictionaryEntry.kotlin : DictionaryEntry → String
  | ⟨key, value⟩ => key.kotlin ++ " to " ++ value.kotlin

def LambdaParameter.kotlin : LambdaParameter → String
  | ⟨annotations, type, name⟩ =>
    endEach " " (AnnotationUse.kotlinEach annotations) ++ name.getD "_" ++ typeMark type

/-- The text between the head of a lambda and its closing brace. -/
def LambdaBody.kotlin : LambdaBody → String
  | .expression value => " " ++ value.kotlin ++ " "
  | .block statements result =>
    let result :=
      match result with
      | none => ""
      | some value => value.kotlin ++ "\n"
    "\n" ++ endEach "\n" (Statement.kotlinEach statements) ++ result

def Branch.kotlin : Branch → String
  | ⟨conditions, body⟩ => commas (Condition.kotlinEach conditions) ++ " -> " ++ body.kotlin

def Condition.kotlin : Condition → String
  | ⟨kind, value⟩ => kind.before value.kotlin

def AnnotationUse.kotlin : AnnotationUse → String
  | ⟨name, typeArguments, arguments⟩ =>
    "@" ++ name ++ angleList (TypeArgument.kotlinEach typeArguments) ++
      nonemptyList (AnnotationArgument.kotlinEach arguments)

def AnnotationArgument.kotlin : AnnotationArgument → String
  | .single name value => nameMark name ++ value.kotlin
  | .array name values => nameMark name ++ "[" ++ commas (Expression.kotlinEach values) ++ "]"

def Statement.kotlin : Statement → String
  | .labeled label statement => label ++ "@ " ++ statement.kotlin
  | .assignment target operator value =>
    operator.asStatement target.kotlin ⟨value.priority, value.kotlin⟩
  | .conditional condition consequent alternative =>
    let otherwise :=
      match alternative with
      | none => ""
      | some body => " else " ++ body.kotlin
    "if (" ++ condition.kotlin ++ ") " ++ consequent.kotlin ++ otherwise
  | .forEach item source body =>
    "for (" ++ item.kotlin ++ " in " ++ source.kotlin ++ ") " ++ body.kotlin
  | .forClassic initial conditions updates body =>
    let test :=
      if conditions.isEmpty then "true" else joinWith " && " (Expression.conjuncts conditions)
    let inner :=
      match body with
      | .block statements => endEach "\n" (Statement.kotlinEach statements)
      | .empty => ""
      | statement => statement.kotlin ++ "\n"
    "run \x7b\n" ++ endEach "\n" (ForVariable.kotlinEach initial) ++ "while (" ++ test ++
      ") \x7b\n" ++ inner ++ endEach "\n" (Statement.kotlinEach updates) ++
      "\x7d\n\x7d"
  | .loop testsLast condition body =>
    if testsLast then "do " ++ body.kotlin ++ " while (" ++ condition.kotlin ++ ")"
    else "while (" ++ condition.kotlin ++ ") " ++ body.kotlin
  | .break label => jumpText "break" label
  | .continue label => jumpText "continue" label
  | .throw value => "throw " ++ value.kotlin
  | .return label none => jumpText "return" label
  | .return label (some value) => jumpText "return" label ++ " " ++ value.kotlin
  | .block statements => blockText (Statement.kotlinEach statements)
  | .declaration declaration => declaration.kotlin
  | .expression value => value.kotlin
  | .empty => "\x7b\x7d"

def ForVariable.kotlin : ForVariable → String
  | ⟨type, name, value⟩ => "var " ++ name ++ typeMark type ++ " = " ++ value.kotlin

def Declaration.kotlin : Declaration → String
  | .type annotations visibility name kind =>
    endEach "\n" (AnnotationUse.kotlinEach annotations) ++ visibility.kotlin ++ kind.kotlin name
  | .function declaration => declaration.kotlin
  | .property declaration => declaration.kotlin

def TypeKind.kotlin (name : String) : TypeKind → String
  | .classType modifiers typeParameters parameters supertypes members =>
    let parameters :=
      match parameters with
      | none => ""
      | some parameters => "(" ++ commas (Parameter.kotlinEach .primary parameters) ++ ")"
    modifiers.kotlin ++ "class " ++ name ++ angleList (TypeParameter.kotlinEach typeParameters) ++
      parameters ++ supertypeList (Supertype.kotlinEach supertypes) ++
      whereClause (TypeParameter.bounds typeParameters) ++ members.body
  | .singleton supertypes members =>
    "object " ++ name ++ supertypeList (Supertype.kotlinEach supertypes) ++ members.flatBody
  | .interface typeParameters supertypes members =>
    "interface " ++ name ++ angleList (TypeParameter.kotlinEach typeParameters) ++
      supertypeList (supertypes.map (·.kotlin)) ++
      whereClause (TypeParameter.bounds typeParameters) ++ members.body
  | .enumClass typeParameters parameters supertypes entries members =>
    let parameters :=
      match parameters with
      | none => ""
      | some parameters => "(" ++ commas (Parameter.kotlinEach .primary parameters) ++ ")"
    "enum class " ++ name ++ angleList (TypeParameter.kotlinEach typeParameters) ++ parameters ++
      supertypeList (Supertype.kotlinEach supertypes) ++
      whereClause (TypeParameter.bounds typeParameters) ++ " \x7b\n" ++
      joinWith ",\n" (EnumEntry.kotlinEach entries) ++ ";" ++ members.tail ++ "\n\x7d"
  | .constants bitfield type entries =>
    "object " ++ name ++ " \x7b\n" ++
      endEach "\n" (constantLines type bitfield (Expression.renderEntries entries)) ++ "\x7d"
  | .record typeParameters parameters supertypes members =>
    "data class " ++ name ++ angleList (TypeParameter.kotlinEach typeParameters) ++ "(" ++
      commas (Parameter.kotlinEach .component parameters) ++ ")" ++
      supertypeList (Supertype.kotlinEach supertypes) ++
      whereClause (TypeParameter.bounds typeParameters) ++ members.body
  | .inlineClass parameter supertypes members =>
    "inline class " ++ name ++ "(" ++ parameter.kotlin .component ++ ")" ++
      supertypeList (Supertype.kotlinEach supertypes) ++ members.body
  | .annotationType parameters members =>
    "annotation class " ++ name ++ nonemptyList (Parameter.kotlinEach .component parameters) ++
      members.body

/-- The values of constants with their texts. -/
def Expression.renderEntries : List (ConstantEntry Expression) → List (ConstantEntry Rendered)
  | [] => []
  | .implicit name :: entries => .implicit name :: Expression.renderEntries entries
  | .assigned name value :: entries =>
    .assigned name ⟨value.priority, value.kotlin⟩ :: Expression.renderEntries entries
  | .shifted name value :: entries =>
    .shifted name ⟨value.priority, value.kotlin⟩ :: Expression.renderEntries entries

def EnumEntry.kotlin : EnumEntry → String
  | ⟨annotations, name, arguments, body⟩ =>
    let body :=
      match body with
      | none => ""
      | some members => " \x7b\n" ++ lines (Member.kotlinEach members) ++ "\n\x7d"
    endEach " " (AnnotationUse.kotlinEach annotations) ++ name ++
      nonemptyList (Argument.kotlinEach arguments) ++ body

def Supertype.kotlin : Supertype → String
  | .bare type => type.kotlin
  | .initialized type arguments =>
    type.kotlin ++ "(" ++ commas (Argument.kotlinEach arguments) ++ ")"
  | .delegated type delegate => type.kotlin ++ " by " ++ delegate.kotlin

/-- The braces of a class-like declaration with its members. -/
def Members.body : Members → String
  | ⟨instances, statics⟩ => memberBody (Member.kotlinEach instances) (Member.kotlinEach statics)

/-- The braces of a singleton, whose static members need no companion object. -/
def Members.flatBody : Members → String
  | ⟨instances, statics⟩ =>
    if instances.isEmpty && statics.isEmpty then ""
    else " \x7b\n" ++ lines (Member.kotlinEach statics) ++ "\n\x7d"

/-- The members behind the entries of an enum class. -/
def Members.tail : Members → String
  | ⟨instances, statics⟩ =>
    if instances.isEmpty && statics.isEmpty then ""
    else "\n" ++ memberList (Member.kotlinEach instances) (Member.kotlinEach statics)

def Member.kotlin : Member → String
  | .declaration declaration => declaration.kotlin
  | .constructor annotations visibility parameters delegations body =>
    endEach "\n" (AnnotationUse.kotlinEach annotations) ++ visibility.kotlin ++ "constructor(" ++
      commas (Parameter.kotlinEach .value parameters) ++ ")" ++
      supertypeList (Delegation.kotlinEach delegations) ++ body.kotlin
  | .initializer _ body => "init " ++ blockText (Statement.kotlinEach body)

def Delegation.kotlin : Delegation → String
  | ⟨target, arguments⟩ =>
    target.kotlin ++ "(" ++ commas (Argument.kotlinEach arguments) ++ ")"

def FunctionDeclaration.kotlin : FunctionDeclaration → String
  | ⟨annotations, visibility, inheritance, modifiers, typeParameters, returnType, name, parameters,
      throws, body⟩ =>
    let typeParameterList :=
      if typeParameters.isEmpty then ""
      else angleList (TypeParameter.kotlinEach typeParameters) ++ " "
    let result :=
      match returnType with
      | none => ""
      | some type => ": " ++ type.kotlin
    throwsLine throws ++ onlyIf (modifiers.contains .strictfp) "@Strictfp\n" ++
      onlyIf (modifiers.contains .synchronized) "@Synchronized\n" ++
      annotatedVisibility annotations (AnnotationUse.kotlinEach annotations) visibility ++
      inheritanceMark inheritance ++ endEach "" (modifiers.map (·.keyword)) ++ "fun " ++
      typeParameterList ++ name ++ "(" ++ commas (Parameter.kotlinEach .value parameters) ++ ")" ++
      result ++ whereClause (TypeParameter.bounds typeParameters) ++ body.kotlin

/-- A block behind a blank, an expression behind ` = `, or nothing. -/
def FunctionBody.kotlin : FunctionBody → String
  | .absent => ""
  | .block statements => " " ++ blockText (Statement.kotlinEach statements)
  | .expression value => " = " ++ value.kotlin

def PropertyDeclaration.kotlin : PropertyDeclaration → String
  | ⟨annotations, visibility, inheritance, modifiers, type, properties⟩ =>
    let head :=
      propertyHead annotations (AnnotationUse.kotlinEach annotations) visibility inheritance
        modifiers
    lines (Property.kotlinEach head type properties)

def Property.kotlin (head : String) (type : Option TypeRef) : Property → String
  | ⟨name, value, delegate, getter, setter⟩ =>
    let value :=
      match value with
      | none => ""
      | some value => " = " ++ value.kotlin
    let delegate :=
      match delegate with
      | none => ""
      | some delegate => " by " ++ delegate.kotlin
    let getter :=
      match getter with
      | none => ""
      | some getter => "\n" ++ getter.kotlinGet
    let setter :=
      match setter with
      | none => ""
      | some setter => "\n" ++ setter.kotlinSet
    head ++ name ++ typeMark type ++ value ++ delegate ++ getter ++ setter

def Accessor.kotlinGet : Accessor → String
  | ⟨annotations, _, .absent⟩ => endEach " " (AnnotationUse.kotlinEach annotations) ++ "get"
  | ⟨annotations, _, body⟩ =>
    endEach " " (AnnotationUse.kotlinEach annotations) ++ "get()" ++ body.kotlin

def Accessor.kotlinSet : Accessor → String
  | ⟨annotations, _, .absent⟩ => endEach " " (AnnotationUse.kotlinEach annotations) ++ "set"
  | ⟨annotations, parameter, body⟩ =>
    endEach " " (AnnotationUse.kotlinEach annotations) ++ "set(" ++ parameter.getD "value" ++
      ")" ++ body.kotlin

def Parameter.kotlin (role : ParameterRole) : Parameter → String
  | ⟨annotations, isMutable, type, isVararg, name, fallback⟩ =>
    let fallback :=
      match fallback with
      | none => ""
      | some value => " = " ++ value.kotlin
    endEach " " (AnnotationUse.kotlinEach annotations) ++ onlyIf isVararg "vararg " ++
      role.keyword isMutable ++ name ++ ": " ++ type.kotlin ++ fallback

def TypeParameter.kotlin : TypeParameter → String
  | ⟨annotations, mark, name, constraints⟩ =>
    endEach " " (AnnotationUse.kotlinEach annotations) ++ mark.kotlin ++ name ++
      firstBound constraints

def Expression.kotlinEach : List Expression → List String
  | [] => []
  | first :: rest => first.kotlin :: Expression.kotlinEach rest

def Argument.kotlinEach : List Argument → List String
  | [] => []
  | first :: rest => first.kotlin :: Argument.kotlinEach rest

def DictionaryEntry.kotlinEach : List DictionaryEntry → List String
  | [] => []
  | first :: rest => first.kotlin :: DictionaryEntry.kotlinEach rest

def LambdaParameter.kotlinEach : List LambdaParameter → List String
  | [] => []
  | first :: rest => first.kotlin :: LambdaParameter.kotlinEach rest

def Branch.kotlinEach : List Branch → List String
  | [] => []
  | first :: rest => first.kotlin :: Branch.kotlinEach rest

def Condition.kotlinEach : List Condition → List String
  | [] => []
  | first :: rest => first.kotlin :: Condition.kotlinEach rest

def AnnotationUse.kotlinEach : List AnnotationUse → List String
  | [] => []
  | first :: rest => first.kotlin :: AnnotationUse.kotlinEach rest

def AnnotationArgument.kotlinEach : List AnnotationArgument → List String
  | [] => []
  | first :: rest => first.kotlin :: AnnotationArgument.kotlinEach rest

def Statement.kotlinEach : List Statement → List String
  | [] => []
  | first :: rest => first.kotlin :: Statement.kotlinEach rest

def ForVariable.kotlinEach : List ForVariable → List String
  | [] => []
  | first :: rest => first.kotlin :: ForVariable.kotlinEach rest

def EnumEntry.kotlinEach : List EnumEntry → List String
  | [] => []
  | first :: rest => first.kotlin :: EnumEntry.kotlinEach rest

def Supertype.kotlinEach : List Supertype → List String
  | [] => []
  | first :: rest => first.kotlin :: Supertype.kotlinEach rest

def Member.kotlinEach : List Member → List String
  | [] => []
  | first :: rest => first.kotlin :: Member.kotlinEach rest

def Delegation.kotlinEach : List Delegation → List String
  | [] => []
  | first :: rest => first.kotlin :: Delegation.kotlinEach rest

def TypeParameter.kotlinEach : List TypeParameter → List String
  | [] => []
  | first :: rest => first.kotlin :: TypeParameter.kotlinEach rest

def Parameter.kotlinEach (role : ParameterRole) : List Parameter → List String
  | [] => []
  | first :: rest => first.kotlin role :: Parameter.kotlinEach role rest

def Property.kotlinEach (head : String) (type : Option TypeRef) : List Property → List String
  | [] => []
  | first :: rest => first.kotlin head type :: Property.kotlinEach head type rest

/-- The operands of a conjunction. -/
def Expression.conjuncts : List Expression → List String
  | [] => []
  | first :: rest =>
    Rendered.under ⟨first.priority, first.kotlin⟩ Priority.conjunction ::
      Expression.conjuncts rest

end

end QuovaKotlin.Ast

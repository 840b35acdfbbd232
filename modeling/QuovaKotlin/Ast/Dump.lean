import QuovaKotlin.Ast.Basic
import QuovaKotlin.Json.Basic

/-!
# Dumps of syntax trees

A tree as a JSON value. Alternatives are objects with one tagged field, or just the tag when they
carry nothing; absent parts are null.
-/

set_option autoImplicit false

namespace QuovaKotlin.Ast

open Json (tagged ofOption ofTexts)

def PrimitiveType.dump (type : PrimitiveType) : Json :=
  .object [("kind", .text type.kind.tag), ("array", .bool type.array)]

def dumpVariance (variance : Option Variance) : Json :=
  ofOption (fun v => .text v.tag) variance

mutual

def TypeRef.dump : TypeRef → Json
  | ⟨core, dimensions, nullable⟩ =>
    .object [
      ("inner", core.dump),
      ("array_dimensions", .number dimensions),
      ("nullable", .bool nullable)]

def TypeCore.dump : TypeCore → Json
  | .primitive type => tagged "A" (tagged "Primitive" type.dump)
  | .user type => tagged "A" (tagged "User" type.dump)
  | .function suspend result parameters =>
    tagged "B" (.object [
      ("suspend", .bool suspend),
      ("return_type", result.dump),
      ("parameters", .list (TypeRef.dumpEach parameters))])

def UserType.dump : UserType → Json
  | ⟨name, arguments⟩ =>
    .object [("name", .text name), ("type_arguments", .list (TypeArgument.dumpEach arguments))]

def TypeArgument.dump : TypeArgument → Json
  | .wildcard => .text "Wildcard"
  | .concrete variance type =>
    tagged "Concrete" (.object [("variance", dumpVariance variance), ("ty", type.dump)])

def TypeRef.dumpEach : List TypeRef → List Json
  | [] => []
  | first :: rest => first.dump :: TypeRef.dumpEach rest

def TypeArgument.dumpEach : List TypeArgument → List Json
  | [] => []
  | first :: rest => first.dump :: TypeArgument.dumpEach rest

end

def ReturnType.dump : ReturnType → Json
  | type t => tagged "Type" t.dump
  | void => .text "Void"

def Literal.dump : Literal → Json
  | string text => tagged "String" (.text text)
  | multilineString text => tagged "MultilineString" (.text text)
  | integer text => tagged "Integer" (.text text)
  | long text => tagged "Long" (.text text)
  | real text => tagged "Real" (.text text)
  | char text => tagged "Char" (.text text)
  | this => .text "This"
  | super type => tagged "Super" (ofOption (·.dump) type)
  | boolean value => tagged "Boolean" (.bool value)
  | null => .text "Null"
  | void => .text "Void"

def CallTarget.dump : CallTarget → Json
  | named name => tagged "Name" (.text name)
  | classObject => .text "Class"

def ConditionKind.dump : ConditionKind → Json
  | case => .text "Case"
  | inside negated => tagged "In" (.object [("negated", .bool negated)])
  | ofType negated => tagged "Is" (.object [("negated", .bool negated)])

def TypeParameterMark.field : TypeParameterMark → String × Json
  | reified present => ("reified", .bool present)
  | variance v => ("variance", dumpVariance v)

def DelegationTarget.tag : DelegationTarget → String
  | this => "This"
  | super => "Super"

def dumpType (type : Option TypeRef) : Json :=
  ofOption (·.dump) type

def dumpInheritance (inheritance : Option Inheritance) : Json :=
  ofOption (fun i => .text i.tag) inheritance

/-- A list of elements or of entries, with the type of an element if it is given. -/
def dumpInitializer (side : String) (entries : List Json) (element : Option TypeRef) : Json :=
  .object [("entries", tagged side (.list entries)), ("element_type", dumpType element)]

def dumpLoop (item : LoopVariable) (source : Json) : Json :=
  .object [("ty", dumpType item.type), ("name", .text item.name), ("iterable", source)]

/-- A statement as the body of another: blocks and the empty statement stand for themselves. -/
def Statement.asBody (statement : Statement) (dumped : Json) : Json :=
  match statement with
  | .block _ | .empty => dumped
  | _ => tagged "Statement" dumped

def dumpBlock (statements : List Json) : Json :=
  .object [("statements", .list statements)]

def dumpLambdaBlock (statements : List Json) (result : Json) : Json :=
  .object [("statements", .list statements), ("result", result)]

def dumpLabel (label : Option String) : Json :=
  ofOption .text label

def dumpMembers (instances statics : List Json) : Json :=
  .object [("instance", .list instances), ("statics", .list statics)]

def dumpAssignment (target : Json) (operator : AssignmentOperator) (value : Json) : Json :=
  .object [("target", target), ("operator", .text operator.tag), ("value", value)]

mutual

def Expression.dump : Expression → Json
  | .literal value => tagged "Literal" value.dump
  | .identifier name => tagged "Identifier" (.text name)
  | .construct type arguments =>
    tagged "ConstructorInvocation" (tagged "Constructor" (.object [
      ("ty", type.dump), ("arguments", .list (Argument.dumpEach arguments))]))
  | .arrayOf element elements =>
    tagged "ConstructorInvocation" (tagged "Array"
      (dumpInitializer "A" (Argument.dumpEach elements) (some element)))
  | .initializer elements =>
    tagged "Literal" (tagged "InitializerList"
      (dumpInitializer "A" (Argument.dumpEach elements) none))
  | .dictionary entries =>
    tagged "Literal" (tagged "InitializerList"
      (dumpInitializer "B" (DictionaryEntry.dumpEach entries) none))
  | .lambda parameters body =>
    tagged "Literal" (tagged "Lambda" (.object [
      ("parameters", .list (LambdaParameter.dumpEach parameters)), ("body", body.dump)]))
  | .switch subject branches fallback =>
    let fallback :=
      match fallback with
      | none => .null
      | some body => body.asBody body.dump
    match subject with
    | none =>
      tagged "When" (.object [
        ("branches", .list (Branch.dumpEach false branches)), ("default", fallback)])
    | some subject =>
      tagged "Switch" (.object [
        ("subject", subject.dump),
        ("branches", .list (Branch.dumpEach true branches)),
        ("default", fallback)])
  | .parenthesized inner => tagged "Parenthesized" inner.dump
  | .suffixed operand operator =>
    tagged "Postfix" (.object [("operand", operand.dump), ("operator", operator.dump)])
  | .prefixed operator operand =>
    tagged "Prefix" (.object [("operator", .text operator.tag), ("operand", operand.dump)])
  | .cast operand type safe =>
    tagged "Cast" (.object [("operand", operand.dump), ("ty", type.dump), ("safe", .bool safe)])
  | .binary operator left right =>
    tagged operator.tag (.object [
      ("left", left.dump), ("operator", ofOption .text operator.member?), ("right", right.dump)])
  | .ternary condition consequent alternative =>
    tagged "Ternary" (.object [
      ("condition", condition.dump),
      ("then", consequent.dump),
      ("otherwise", alternative.dump)])
  | .spread operand => tagged "Spread" operand.dump
  | .assign target operator value =>
    tagged "Assignment" (dumpAssignment target.dump operator value.dump)
  | .comprehension mapping item source condition =>
    let condition :=
      match condition with
      | none => .null
      | some condition => condition.dump
    tagged "ListComprehension" (.object [
      ("mapping", mapping.dump), ("source", dumpLoop item source.dump), ("condition", condition)])

def PostfixOperator.dump : PostfixOperator → Json
  | .increment => .text "Increment"
  | .decrement => .text "Decrement"
  | .notNull => .text "NotNull"
  | .invocation typeArguments arguments =>
    tagged "Invocation" (.object [
      ("type_arguments", .list (TypeArgument.dumpEach typeArguments)),
      ("arguments", .list (Argument.dumpEach arguments))])
  | .indexing indices => tagged "Indexing" (.list (Expression.dumpEach indices))
  | .call kind target =>
    tagged "Call" (.object [("kind", .text kind.tag), ("member", target.dump)])

def Argument.dump : Argument → Json
  | ⟨name, value⟩ => .object [("name", ofOption .text name), ("value", value.dump)]

def DictionaryEntry.dump : DictionaryEntry → Json
  | ⟨key, value⟩ => .object [("key", key.dump), ("value", value.dump)]

def LambdaParameter.dump : LambdaParameter → Json
  | ⟨annotations, type, name⟩ =>
    .object [
      ("annotations", .list (AnnotationUse.dumpEach annotations)),
      ("ty", dumpType type),
      ("name", ofOption .text name)]

def LambdaBody.dump : LambdaBody → Json
  | .expression value => tagged "A" value.dump
  | .block statements result =>
    let result :=
      match result with
      | none => .null
      | some value => value.dump
    tagged "B" (dumpLambdaBlock (Statement.dumpEach statements) result)

/-- Conditions are dumped with their kind only where there is a subject to test. -/
def Branch.dump (hasSubject : Bool) : Branch → Json
  | ⟨conditions, body⟩ =>
    .object [
      ("conditions", .list (Condition.dumpEach hasSubject conditions)),
      ("body", body.asBody body.dump)]

def Condition.dump (hasSubject : Bool) : Condition → Json
  | ⟨kind, value⟩ =>
    if hasSubject then .object [("kind", kind.dump), ("value", value.dump)] else value.dump

def AnnotationUse.dump : AnnotationUse → Json
  | ⟨name, typeArguments, arguments⟩ =>
    .object [
      ("name", .text name),
      ("type_arguments", .list (TypeArgument.dumpEach typeArguments)),
      ("arguments", .list (AnnotationArgument.dumpEach arguments))]

def AnnotationArgument.dump : AnnotationArgument → Json
  | .single name value =>
    .object [("name", ofOption .text name), ("value", tagged "A" value.dump)]
  | .array name values =>
    .object [
      ("name", ofOption .text name), ("value", tagged "B" (.list (Expression.dumpEach values)))]

def Statement.dump : Statement → Json
  | .labeled label statement =>
    tagged "Labeled" (.object [("label", .text label), ("statement", statement.dump)])
  | .assignment target operator value =>
    tagged "Assignment" (dumpAssignment target.dump operator value.dump)
  | .conditional condition consequent alternative =>
    let alternative :=
      match alternative with
      | none => .null
      | some body => body.asBody body.dump
    tagged "If" (.object [
      ("condition", condition.dump),
      ("then", consequent.asBody consequent.dump),
      ("otherwise", alternative)])
  | .forEach item source body =>
    tagged "For" (.object [
      ("header", tagged "B" (dumpLoop item source.dump)), ("body", body.asBody body.dump)])
  | .forClassic initial conditions updates body =>
    tagged "For" (.object [
      ("header", tagged "A" (.object [
        ("variables", .list (ForVariable.dumpEach initial)),
        ("conditions", .list (Expression.dumpEach conditions)),
        ("updates", .list (Statement.dumpEach updates))])),
      ("body", body.asBody body.dump)])
  | .loop testsLast condition body =>
    tagged "While" (.object [
      ("do_while", .bool testsLast),
      ("condition", condition.dump),
      ("body", body.asBody body.dump)])
  | .break label => tagged "Jump" (tagged "Break" (dumpLabel label))
  | .continue label => tagged "Jump" (tagged "Continue" (dumpLabel label))
  | .throw value => tagged "Jump" (tagged "Throw" value.dump)
  | .return label value =>
    let value :=
      match value with
      | none => .null
      | some value => value.dump
    tagged "Jump" (tagged "Return" (.object [("label", dumpLabel label), ("value", value)]))
  | .block statements => tagged "Block" (dumpBlock (Statement.dumpEach statements))
  | .declaration declaration => tagged "Declaration" declaration.dump
  | .expression value => tagged "Expression" value.dump
  | .empty => .text "Pass"

def ForVariable.dump : ForVariable → Json
  | ⟨type, name, value⟩ =>
    .object [("ty", dumpType type), ("name", .text name), ("value", value.dump)]

def Declaration.dump : Declaration → Json
  | .type annotations visibility name kind =>
    tagged "Type" (.object [
      ("annotations", .list (AnnotationUse.dumpEach annotations)),
      ("visibility", .text visibility.tag),
      ("kind", kind.dump name)])
  | .function declaration => tagged "Function" declaration.dump
  | .property declaration => tagged "Property" declaration.dump

def TypeKind.dump (name : String) : TypeKind → Json
  | .classType modifiers typeParameters parameters supertypes members =>
    let parameters :=
      match parameters with
      | none => .null
      | some parameters => .list (Parameter.dumpEach parameters)
    tagged "Class" (.object [
      ("inheritance", dumpInheritance modifiers.inheritance),
      ("sealed", .bool modifiers.isSealed),
      ("inner", .bool modifiers.isInner),
      ("name", .text name),
      ("type_parameters", .list (TypeParameter.dumpEach typeParameters)),
      ("parameters", parameters),
      ("supertypes", .list (Supertype.dumpEach supertypes)),
      ("members", members.dump)])
  | .singleton supertypes members =>
    tagged "Singleton" (.object [
      ("name", .text name),
      ("supertypes", .list (Supertype.dumpEach supertypes)),
      ("members", members.dump)])
  | .interface typeParameters supertypes members =>
    tagged "Interface" (.object [
      ("name", .text name),
      ("type_parameters", .list (TypeParameter.dumpEach typeParameters)),
      ("supertypes", .list (supertypes.map (·.dump))),
      ("members", members.dumpDeclarations)])
  | .enumClass typeParameters parameters supertypes entries members =>
    let parameters :=
      match parameters with
      | none => .null
      | some parameters => .list (Parameter.dumpEach parameters)
    tagged "EnumClass" (.object [
      ("name", .text name),
      ("type_parameters", .list (TypeParameter.dumpEach typeParameters)),
      ("parameters", parameters),
      ("supertypes", .list (Supertype.dumpEach supertypes)),
      ("entries", .list (EnumEntry.dumpEach entries)),
      ("members", members.dump)])
  | .constants bitfield type entries =>
    tagged "PrimitiveEnum" (.object [
      ("bitfield", .bool bitfield),
      ("ty", type.dump),
      ("name", .text name),
      ("entries", .list (Expression.dumpEntries entries))])
  | .record typeParameters parameters supertypes members =>
    tagged "Record" (.object [
      ("name", .text name),
      ("type_parameters", .list (TypeParameter.dumpEach typeParameters)),
      ("parameters", .list (Parameter.dumpEach parameters)),
      ("supertypes", .list (Supertype.dumpEach supertypes)),
      ("members", members.dump)])
  | .inlineClass parameter supertypes members =>
    tagged "InlineClass" (.object [
      ("name", .text name),
      ("parameter", parameter.dump),
      ("supertypes", .list (Supertype.dumpEach supertypes)),
      ("members", members.dump)])
  | .annotationType parameters members =>
    tagged "Annotation" (.object [
      ("name", .text name),
      ("parameters", .list (Parameter.dumpPlainEach parameters)),
      ("members", members.dump)])

def Expression.dumpEntries : List (ConstantEntry Expression) → List Json
  | [] => []
  | .implicit name :: entries =>
    .object [("name", .text name), ("value", .null)] :: Expression.dumpEntries entries
  | .assigned name value :: entries =>
    .object [
      ("name", .text name),
      ("value", .object [("kind", .text "Assign"), ("value", value.dump)])] ::
      Expression.dumpEntries entries
  | .shifted name value :: entries =>
    .object [
      ("name", .text name),
      ("value", .object [("kind", .text "Shift"), ("value", value.dump)])] ::
      Expression.dumpEntries entries

def EnumEntry.dump : EnumEntry → Json
  | ⟨annotations, name, arguments, body⟩ =>
    let body :=
      match body with
      | none => .null
      | some members => .list (Member.dumpEach members)
    .object [
      ("annotations", .list (AnnotationUse.dumpEach annotations)),
      ("name", .text name),
      ("arguments", .list (Argument.dumpEach arguments)),
      ("body", body)]

def Supertype.dump : Supertype → Json
  | .bare type => .object [("ty", type.dump), ("initializer", tagged "A" .null)]
  | .initialized type arguments =>
    .object [
      ("ty", type.dump), ("initializer", tagged "A" (.list (Argument.dumpEach arguments)))]
  | .delegated type delegate =>
    .object [("ty", type.dump), ("initializer", tagged "B" delegate.dump)]

def Members.dump : Members → Json
  | ⟨instances, statics⟩ => dumpMembers (Member.dumpEach instances) (Member.dumpEach statics)

/-- The members of an interface, which are declarations only. -/
def Members.dumpDeclarations : Members → Json
  | ⟨instances, statics⟩ =>
    dumpMembers (Member.dumpDeclarationEach instances) (Member.dumpDeclarationEach statics)

def Member.dump : Member → Json
  | .declaration declaration => tagged "Declaration" declaration.dump
  | .constructor annotations visibility parameters delegations body =>
    let body :=
      match body with
      | .block statements => dumpBlock (Statement.dumpEach statements)
      | .absent | .expression _ => .null
    tagged "Constructor" (.object [
      ("annotations", .list (AnnotationUse.dumpEach annotations)),
      ("visibility", .text visibility.tag),
      ("parameters", .list (Parameter.dumpEach parameters)),
      ("delegations", .list (Delegation.dumpEach delegations)),
      ("body", body)])
  | .initializer isStatic body =>
    tagged "InitBlock" (.object [
      ("is_static", .bool isStatic), ("body", dumpBlock (Statement.dumpEach body))])

def Delegation.dump : Delegation → Json
  | ⟨target, arguments⟩ =>
    .object [("target", .text target.tag), ("arguments", .list (Argument.dumpEach arguments))]

def FunctionDeclaration.dump : FunctionDeclaration → Json
  | ⟨annotations, visibility, inheritance, modifiers, typeParameters, returnType, name, parameters,
      throws, body⟩ =>
    .object [
      ("annotations", .list (AnnotationUse.dumpEach annotations)),
      ("visibility", .text visibility.tag),
      ("inheritance", dumpInheritance inheritance),
      ("modifiers", ofTexts (modifiers.map (·.tag))),
      ("type_parameters", .list (TypeParameter.dumpEach typeParameters)),
      ("return_type", ofOption (·.dump) returnType),
      ("name", .text name),
      ("parameters", .list (Parameter.dumpEach parameters)),
      ("throws", .list (throws.map (·.dump))),
      ("body", body.dump)]

def FunctionBody.dump : FunctionBody → Json
  | .absent => .null
  | .block statements => tagged "A" (dumpBlock (Statement.dumpEach statements))
  | .expression value => tagged "B" value.dump

def PropertyDeclaration.dump : PropertyDeclaration → Json
  | ⟨annotations, visibility, inheritance, modifiers, type, properties⟩ =>
    .object [
      ("annotations", .list (AnnotationUse.dumpEach annotations)),
      ("visibility", .text visibility.tag),
      ("inheritance", dumpInheritance inheritance),
      ("modifiers", ofTexts (modifiers.map (·.tag))),
      ("ty", dumpType type),
      ("properties", .list (Property.dumpEach properties))]

def Property.dump : Property → Json
  | ⟨name, value, delegate, getter, setter⟩ =>
    let value :=
      match value with
      | none => .null
      | some value => value.dump
    let delegate :=
      match delegate with
      | none => .null
      | some delegate => delegate.dump
    let getter :=
      match getter with
      | none => .null
      | some getter => getter.dumpGetter
    let setter :=
      match setter with
      | none => .null
      | some setter => setter.dumpSetter
    .object [
      ("name", .text name),
      ("value", value),
      ("delegate", delegate),
      ("getter", getter),
      ("setter", setter)]

def Accessor.dumpGetter : Accessor → Json
  | ⟨annotations, _, body⟩ =>
    .object [
      ("annotations", .list (AnnotationUse.dumpEach annotations)),
      ("body", body.dump)]

def Accessor.dumpSetter : Accessor → Json
  | ⟨annotations, parameter, body⟩ =>
    .object [
      ("annotations", .list (AnnotationUse.dumpEach annotations)),
      ("parameter", ofOption .text parameter),
      ("body", body.dump)]

def Parameter.dump : Parameter → Json
  | ⟨annotations, isMutable, type, isVararg, name, fallback⟩ =>
    let fallback :=
      match fallback with
      | none => .null
      | some value => value.dump
    .object [
      ("annotations", .list (AnnotationUse.dumpEach annotations)),
      ("mutable", .bool isMutable),
      ("ty", type.dump),
      ("vararg", .bool isVararg),
      ("name", .text name),
      ("default", fallback)]

/-- A parameter that can be neither mutable nor variadic. -/
def Parameter.dumpPlain : Parameter → Json
  | ⟨annotations, _, type, _, name, fallback⟩ =>
    let fallback :=
      match fallback with
      | none => .null
      | some value => value.dump
    .object [
      ("annotations", .list (AnnotationUse.dumpEach annotations)),
      ("ty", type.dump),
      ("name", .text name),
      ("default", fallback)]

def TypeParameter.dump : TypeParameter → Json
  | ⟨annotations, mark, name, constraints⟩ =>
    .object [
      ("annotations", .list (AnnotationUse.dumpEach annotations)),
      mark.field,
      ("name", .text name),
      ("constraints", .list (TypeRef.dumpEach constraints))]

def Expression.dumpEach : List Expression → List Json
  | [] => []
  | first :: rest => first.dump :: Expression.dumpEach rest

def Argument.dumpEach : List Argument → List Json
  | [] => []
  | first :: rest => first.dump :: Argument.dumpEach rest

def DictionaryEntry.dumpEach : List DictionaryEntry → List Json
  | [] => []
  | first :: rest => first.dump :: DictionaryEntry.dumpEach rest

def LambdaParameter.dumpEach : List LambdaParameter → List Json
  | [] => []
  | first :: rest => first.dump :: LambdaParameter.dumpEach rest

def Branch.dumpEach (hasSubject : Bool) : List Branch → List Json
  | [] => []
  | first :: rest => first.dump hasSubject :: Branch.dumpEach hasSubject rest

def Condition.dumpEach (hasSubject : Bool) : List Condition → List Json
  | [] => []
  | first :: rest => first.dump hasSubject :: Condition.dumpEach hasSubject rest

def AnnotationUse.dumpEach : List AnnotationUse → List Json
  | [] => []
  | first :: rest => first.dump :: AnnotationUse.dumpEach rest

def AnnotationArgument.dumpEach : List AnnotationArgument → List Json
  | [] => []
  | first :: rest => first.dump :: AnnotationArgument.dumpEach rest

def Statement.dumpEach : List Statement → List Json
  | [] => []
  | first :: rest => first.dump :: Statement.dumpEach rest

def ForVariable.dumpEach : List ForVariable → List Json
  | [] => []
  | first :: rest => first.dump :: ForVariable.dumpEach rest

def EnumEntry.dumpEach : List EnumEntry → List Json
  | [] => []
  | first :: rest => first.dump :: EnumEntry.dumpEach rest

def Supertype.dumpEach : List Supertype → List Json
  | [] => []
  | first :: rest => first.dump :: Supertype.dumpEach rest

def Member.dumpEach : List Member → List Json
  | [] => []
  | first :: rest => first.dump :: Member.dumpEach rest

def Delegation.dumpEach : List Delegation → List Json
  | [] => []
  | first :: rest => first.dump :: Delegation.dumpEach rest

def Property.dumpEach : List Property → List Json
  | [] => []
  | first :: rest => first.dump :: Property.dumpEach rest

def Parameter.dumpEach : List Parameter → List Json
  | [] => []
  | first :: rest => first.dump :: Parameter.dumpEach rest

def TypeParameter.dumpEach : List TypeParameter → List Json
  | [] => []
  | first :: rest => first.dump :: TypeParameter.dumpEach rest

def Parameter.dumpPlainEach : List Parameter → List Json
  | [] => []
  | first :: rest => first.dumpPlain :: Parameter.dumpPlainEach rest

/-- Declarations without the tag that tells members apart. -/
def Member.dumpDeclarationEach : List Member → List Json
  | [] => []
  | .declaration declaration :: rest => declaration.dump :: Member.dumpDeclarationEach rest
  | .constructor .. :: rest => Member.dumpDeclarationEach rest
  | .initializer .. :: rest => Member.dumpDeclarationEach rest

end

/-- A lambda body without the tag of its alternative. -/
def LambdaBody.dumpPlain : LambdaBody → Json
  | .expression value => value.dump
  | .block statements result =>
    dumpLambdaBlock (Statement.dumpEach statements) (ofOption Expression.dump result)

def Import.dump (i : Import) : Json :=
  .object [
    ("path", .text i.path),
    ("wildcard", .bool i.wildcard),
    ("names", ofTexts i.names),
    ("alias", ofOption .text i.newName)]

def SourceFile.dump (file : SourceFile) : Json :=
  .object [
    ("shebang", ofOption .text file.shebang),
    ("package", ofOption .text file.package),
    ("imports", .list (file.imports.map (·.dump))),
    ("declarations", .list (file.declarations.map (·.dump)))]

end QuovaKotlin.Ast

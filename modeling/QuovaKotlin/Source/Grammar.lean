import QuovaKotlin.Peg.Pattern
import QuovaKotlin.Source.Rule

/-!
# The source grammar

Operator expressions are left flat here: a sequence of prefix operators, primaries, postfix
operators and infix operators. `QuovaKotlin.Precedence` groups them.
-/

set_option autoImplicit false

namespace QuovaKotlin.Source

open Peg
open Peg.Pattern (all oneOf plus sepBy words newline anyExcept)
open Rule

private instance : Coe Rule (Pattern Rule) := ⟨.rule⟩

private instance : Coe String (Pattern Rule) := ⟨.lit⟩

namespace Grammar

/-- The first character of an identifier. -/
def identStart : Pattern Rule :=
  oneOf [.char .letter, "_", "$"]

/-- A later character of an identifier. -/
def identChar : Pattern Rule :=
  oneOf [.char .alphanumeric, "_", "$"]

/-- One of the given texts, as a whole word. -/
def word (texts : List String) : Pattern Rule :=
  .seq (words texts) (.absent identChar)

/-- A modifier of a function. -/
def functionModifier : Pattern Rule :=
  oneOf [visibilityModifier, inheritanceModifier, functionModifierKeyword]

/-- A modifier of a property. -/
def propertyModifier : Pattern Rule :=
  oneOf [visibilityModifier, inheritanceModifier, propertyModifierKeyword]

/-- A member of a class-like body. -/
def classMember : Pattern Rule :=
  oneOf [constructorDeclaration, initBlock, declaration]

/-- The supertypes of a class-like declaration. -/
def supertypes : Pattern Rule :=
  all [":", sepBy supertype ","]

/-- An operator in front of an operand. -/
def prefixPart : Pattern Rule :=
  oneOf [prefixOperator, spreadOperator]

/-- An operator behind an operand. -/
def postfixPart : Pattern Rule :=
  oneOf [postfixOperator, castOperator]

/-- An operator between two operands. -/
def infixPart : Pattern Rule :=
  oneOf [
    assignmentOperator, ternaryOperator, disjunctionOperator, conjunctionOperator,
    spaceshipOperator, equalityOperator, shiftOperator, comparisonOperator, bitOrOperator,
    bitXorOperator, bitAndOperator, namedCheckOperator, elvisOperator, rangeOperator,
    sumOperator, productOperator]

/-- An operand of an operator expression. -/
def primaryExpression : Pattern Rule :=
  oneOf [
    literal, constructorInvocation, switchExpression, whenExpression,
    all ["(", expression, ")"], simpleIdentifier]

/-- Decimal digits, with `_` anywhere behind the first. -/
def digits : Pattern Rule :=
  all [.char .digit, .star (oneOf [.char .digit, "_"])]

/-- The exponent of a real number. -/
def exponent : Pattern Rule :=
  all [words ["e", "E"], .optional (words ["+", "-"]), plus (.char .digit)]

/-- An integer without its suffix. -/
def integerBody : Pattern Rule :=
  oneOf [
    all [words ["0x", "0X"], .char .hexDigit, .star (oneOf [.char .hexDigit, "_"])],
    all [words ["0b", "0B"], words ["0", "1"], .star (words ["0", "1", "_"])], digits]

def body : Rule → Pattern Rule
  | .endOfInput => .stop
  | .quovaFile =>
    all [
      .start, .optional shebangLine, .optional packageHeader, .star importHeader,
      .star declaration, endOfInput]
  | .shebangLine => all ["#!", .star (anyExcept newline)]
  | .packageHeader => all [kwPackage, identifier, .optional ";"]
  | .importHeader =>
    all [
      kwImport, identifier, .optional (oneOf [importAll, importList, importAlias]),
      .optional ";"]
  | .importAll => all [".", "*"]
  | .importList => all [".", "\x7b", sepBy simpleIdentifier ",", "\x7d"]
  | .importAlias => all [kwAs, simpleIdentifier]
  | .keyword =>
    word [
      "synchronized", "constructor", "annotation", "instanceof", "interface", "protected",
      "transient", "abstract", "bitfield", "continue", "internal", "readonly", "strictfp",
      "volatile", "boolean", "default", "package", "private", "suspend", "tailrec", "double",
      "import", "inline", "native", "object", "public", "record", "return", "sealed", "static",
      "switch", "throws", "ushort", "break", "class", "const", "false", "final", "float",
      "inner", "sbyte", "short", "super", "throw", "ulong", "while", "byte", "case", "char",
      "else", "enum", "init", "long", "null", "this", "true", "uint", "void", "when", "for",
      "int", "new", "var", "as", "do", "if", "in"]
  | .simpleIdentifier => all [.absent keyword, identStart, .star identChar]
  | .identifier => sepBy simpleIdentifier "."
  | .kwAnnotationType => word ["annotation"]
  | .kwAs => word ["as"]
  | .kwBitfield => word ["bitfield"]
  | .kwBreak => word ["break"]
  | .kwBy => word ["by"]
  | .kwCase => word ["case"]
  | .kwClass => word ["class"]
  | .kwConstructor => word ["constructor"]
  | .kwContinue => word ["continue"]
  | .kwDefault => word ["default"]
  | .kwDo => word ["do"]
  | .kwElse => word ["else"]
  | .kwEnum => word ["enum"]
  | .kwFor => word ["for"]
  | .kwGet => word ["get"]
  | .kwIf => word ["if"]
  | .kwImport => word ["import"]
  | .kwIn => word ["in"]
  | .kwInit => word ["init"]
  | .kwInline => word ["inline"]
  | .kwInner => word ["inner"]
  | .kwInterface => word ["interface"]
  | .kwNew => word ["new"]
  | .kwObject => word ["object"]
  | .kwPackage => word ["package"]
  | .kwRecord => word ["record"]
  | .kwReified => word ["reified"]
  | .kwReturn => word ["return"]
  | .kwSealed => word ["sealed"]
  | .kwSet => word ["set"]
  | .kwStatic => word ["static"]
  | .kwSuper => word ["super"]
  | .kwSuspend => word ["suspend"]
  | .kwSwitch => word ["switch"]
  | .kwThrow => word ["throw"]
  | .kwThrows => word ["throws"]
  | .kwVar => word ["var"]
  | .kwWhen => word ["when"]
  | .kwWhile => word ["while"]
  | .visibilityModifier => word ["public", "private", "protected", "internal"]
  | .inheritanceModifier => word ["final", "abstract"]
  | .varianceModifier => word ["in", "out"]
  | .functionModifierKeyword =>
    word [
      "synchronized", "strictfp", "tailrec", "suspend", "default", "static", "inline", "native"]
  | .propertyModifierKeyword => word ["transient", "readonly", "volatile", "static", "const"]
  | .declaration => oneOf [typeDeclaration, functionDeclaration, propertyDeclaration]
  | .typeDeclaration =>
    all [
      .star annotationUse, .optional visibilityModifier,
      oneOf [
        classDeclaration, singletonDeclaration, interfaceDeclaration, enumClassDeclaration,
        primitiveEnumDeclaration, recordDeclaration, inlineClassDeclaration,
        annotationDeclaration], .optional ";"]
  | .classDeclaration =>
    all [
      .star (oneOf [inheritanceModifier, kwSealed, kwInner]), kwClass, simpleIdentifier,
      .optional variantTypeParameters, .optional valueParameters, .optional supertypes,
      .optional classBody]
  | .classBody => all ["\x7b", .star classMember, "\x7d"]
  | .singletonDeclaration =>
    all [kwObject, simpleIdentifier, .optional supertypes, singletonBody]
  | .singletonBody => all ["\x7b", .star (oneOf [initBlock, declaration]), "\x7d"]
  | .interfaceDeclaration =>
    all [
      kwInterface, simpleIdentifier, .optional variantTypeParameters,
      .optional (all [":", sepBy userType ","]), .optional interfaceBody]
  | .interfaceBody => all ["\x7b", .star declaration, "\x7d"]
  | .enumClassDeclaration =>
    all [
      kwEnum, kwClass, simpleIdentifier, .optional variantTypeParameters,
      .optional valueParameters, .optional supertypes, enumClassBody]
  | .enumClassBody =>
    all [
      "\x7b", .optional (sepBy enumEntry ","), .optional ",",
      .optional (all [";", .star classMember]), "\x7d"]
  | .enumEntry =>
    all [.star annotationUse, simpleIdentifier, .optional valueArguments, .optional classBody]
  | .primitiveEnumDeclaration =>
    all [
      .optional kwBitfield, kwEnum, simpleIdentifier, ":", primitiveTypeNoArray, "\x7b",
      .optional (sepBy primitiveEnumEntry ","), .optional ",", "\x7d"]
  | .primitiveEnumEntry => all [simpleIdentifier, .optional primitiveEnumValue]
  | .primitiveEnumValue => all [oneOf [enumAssign, enumShift], expression]
  | .enumAssign => "="
  | .enumShift => "<<"
  | .recordDeclaration =>
    all [
      kwRecord, simpleIdentifier, .optional typeParameters, valueParameters,
      .optional supertypes, .optional classBody]
  | .inlineClassDeclaration =>
    all [
      kwInline, kwClass, simpleIdentifier, "(", valueParameter, ")", .optional supertypes,
      .optional classBody]
  | .annotationDeclaration => all [kwAnnotationType, simpleIdentifier, .optional annotationBody]
  | .annotationBody => all ["\x7b", .star (oneOf [annotationParameter, classMember]), "\x7d"]
  | .annotationParameter =>
    all [
      .star annotationUse, typeUse, simpleIdentifier, "(", ")",
      .optional (all [kwDefault, expression]), ";"]
  | .supertype => all [userType, .optional (oneOf [valueArguments, all [kwBy, expression]])]
  | .constructorDeclaration =>
    all [
      .star annotationUse, .optional visibilityModifier, kwConstructor, valueParameters,
      .optional (all [":", sepBy constructorDelegation ","]), .optional block, .optional ";"]
  | .constructorDelegation => all [oneOf [thisLiteral, kwSuper], valueArguments]
  | .initBlock => all [.optional kwStatic, kwInit, block]
  | .functionDeclaration =>
    all [
      .star annotationUse, .star functionModifier, .optional typeParameters,
      oneOf [
        all [
          typeOrVoid, simpleIdentifier, valueParameters, .optional throwsClause,
          oneOf [all [functionBody, .optional ";"], ";"]],
        all [
          simpleIdentifier, valueParameters, .optional throwsClause, functionBody, .optional ";"]]]
  | .throwsClause => all [kwThrows, sepBy userType ","]
  | .functionBody => oneOf [block, all ["=", .absent ">", expression]]
  | .propertyDeclaration =>
    all [.star annotationUse, .star propertyModifier, typeOrVar, sepBy property ",", ";"]
  | .property =>
    all [
      simpleIdentifier, .optional (oneOf [propertyValue, propertyDelegate]), .optional getter,
      .optional setter]
  | .propertyValue => all ["=", .absent ">", expression]
  | .propertyDelegate => all [kwBy, expression]
  | .getter =>
    all [.star annotationUse, kwGet, .optional (all ["(", ")"]), .optional functionBody]
  | .setter =>
    all [
      .star annotationUse, kwSet, .optional (all ["(", simpleIdentifier, ")"]),
      .optional functionBody]
  | .annotationUse =>
    all [
      "@", identifier, .optional typeArguments,
      .optional (all ["(", .optional (sepBy annotationArgument ","), ")"])]
  | .annotationArgument =>
    all [
      .optional (all [simpleIdentifier, "=", .absent (words ["=", ">"])]),
      oneOf [annotationArray, expression]]
  | .annotationArray => all ["\x7b", .optional (sepBy expression ","), "\x7d"]
  | .valueParameters => all ["(", .optional (sepBy valueParameter ","), ")"]
  | .valueParameter =>
    all [
      .star annotationUse, .optional kwVar, typeUse, .optional ellipsis, simpleIdentifier,
      .optional (all ["=", .absent ">", expression])]
  | .ellipsis => "..."
  | .valueArguments => all ["(", .optional (sepBy valueArgument ","), ")"]
  | .valueArgument =>
    all [.optional (all [simpleIdentifier, "=", .absent (words ["=", ">"])]), expression]
  | .typeParameters => all ["<", sepBy typeParameter ",", ">"]
  | .typeParameter =>
    all [
      .star annotationUse, .optional kwReified, simpleIdentifier,
      .optional (all [":", sepBy typeUse "&"])]
  | .variantTypeParameters => all ["<", sepBy variantTypeParameter ",", ">"]
  | .variantTypeParameter =>
    all [
      .star annotationUse, .optional varianceModifier, simpleIdentifier,
      .optional (all [":", sepBy typeUse "&"])]
  | .typeUse =>
    all [
      oneOf [functionType, primitiveType, userType], .star emptyDimension, .optional nullable]
  | .nullable => "?"
  | .emptyDimension => all ["[", "]"]
  | .primitiveTypeNoArray =>
    word [
      "boolean", "double", "ushort", "ulong", "float", "sbyte", "short", "byte", "char", "uint",
      "long", "int"]
  | .primitiveType => all [primitiveTypeNoArray, .optional emptyDimension]
  | .userType => all [identifier, .optional typeArguments]
  | .functionType => all [.optional kwSuspend, functionTypeParameters, "->", typeUse]
  | .functionTypeParameters => all ["(", .optional (sepBy typeUse ","), ")"]
  | .typeArguments => all ["<", sepBy typeArgument ",", ">"]
  | .typeArgument => oneOf [wildcard, all [.optional varianceModifier, typeUse]]
  | .wildcard => "?"
  | .typeOrVar => oneOf [kwVar, typeUse]
  | .typeOrVoid => oneOf [voidType, typeUse]
  | .voidType => word ["void"]
  | .statement =>
    oneOf [
      labeledStatement, declaration, ifStatement, forStatement, whileStatement,
      all [jumpStatement, ";"], block, all [assignment, ";"], all [expression, ";"],
      switchExpression, whenExpression]
  | .statementBody => oneOf [block, statement, emptyStatement]
  | .emptyStatement => ";"
  | .block => all ["\x7b", .star statement, "\x7d"]
  | .labeledStatement => all [simpleIdentifier, "@", statement]
  | .assignment => all [assignableExpression, assignmentOperator, expression]
  | .assignableExpression => all [primaryExpression, .star postfixOperator]
  | .ifStatement =>
    all [kwIf, "(", expression, ")", statementBody, .optional (all [kwElse, statementBody])]
  | .forStatement =>
    all [kwFor, "(", oneOf [forEachCondition, classicForCondition], ")", statementBody]
  | .forEachCondition =>
    all [
      .optional (all [typeOrVar, .ahead simpleIdentifier]), simpleIdentifier, kwIn, expression]
  | .classicForCondition =>
    all [
      .optional (sepBy forVariable ","), ";", .optional (sepBy expression ","), ";",
      .optional (sepBy simpleStatement ",")]
  | .forVariable =>
    all [
      .optional (all [typeOrVar, .ahead simpleIdentifier]), simpleIdentifier, "=", .absent ">",
      expression]
  | .simpleStatement => oneOf [assignment, expression]
  | .whileStatement =>
    oneOf [
      all [kwWhile, "(", expression, ")", statementBody],
      all [kwDo, statementBody, kwWhile, "(", expression, ")", ";"]]
  | .jumpStatement =>
    oneOf [
      all [kwBreak, .optional jumpLabel], all [kwContinue, .optional jumpLabel],
      all [kwThrow, expression], all [kwReturn, .optional jumpLabel, .optional expression]]
  | .jumpLabel => all ["@", simpleIdentifier]
  | .expression => all [operatorExpression, .optional forSuffix]
  | .forSuffix =>
    all [kwFor, "(", forEachCondition, ")", .optional (all [kwIf, "(", expression, ")"])]
  | .operatorExpression =>
    all [
      .star prefixPart, primaryExpression, .star postfixPart,
      .star (all [infixPart, .star prefixPart, primaryExpression, .star postfixPart])]
  | .prefixOperator => words ["++", "--", "::", "+", "-", "!", "~"]
  | .spreadOperator => "*"
  | .postfixOperator => oneOf [postfixToken, invocationSuffix, indexingSuffix, callSuffix]
  | .postfixToken => words ["++", "--", "!!"]
  | .invocationSuffix =>
    all [
      .optional typeArguments, oneOf [all [valueArguments, .optional lambdaBody], lambdaBody]]
  | .indexingSuffix => all ["[", sepBy expression ",", "]"]
  | .callSuffix => all [callOperator, oneOf [classReference, simpleIdentifier]]
  | .callOperator => oneOf ["?.", "::", all [".", .absent "."]]
  | .classReference => word ["class"]
  | .castOperator => all [kwAs, .optional safeCast, typeUse]
  | .safeCast => "?"
  | .assignmentOperator =>
    oneOf [
      all ["=", .absent (words ["=", ">"])], "+=", "-=", "*=", "/=", "%=", "&=", "^=", "|=",
      "<<=", ">>>=", ">>=", "??="]
  | .ternaryOperator => all ["?", .absent (words ["?", ".", ":"]), expression, ":"]
  | .disjunctionOperator => "||"
  | .conjunctionOperator => "&&"
  | .spaceshipOperator => "<=>"
  | .equalityOperator => words ["===", "!==", "==", "!="]
  | .shiftOperator => all [words ["<<", ">>>", ">>"], .absent "="]
  | .comparisonOperator => words ["<=", ">=", "<", ">"]
  | .bitOrOperator => all ["|", .absent (words ["|", "="])]
  | .bitXorOperator => all ["^", .absent "="]
  | .bitAndOperator => all ["&", .absent (words ["&", "="])]
  | .namedCheckOperator => all [.optional "!", words ["instanceof", "in"], .absent identChar]
  | .elvisOperator => all ["??", .absent "="]
  | .rangeOperator => all ["..", .absent "."]
  | .sumOperator =>
    oneOf [all ["+", .absent (words ["+", "="])], all ["-", .absent (words ["-", "=", ">"])]]
  | .productOperator => all [words ["*", "/", "%"], .absent "="]
  | .constructorInvocation =>
    all [
      kwNew,
      oneOf [
        all [primitiveTypeNoArray, plus arraySize],
        all [primitiveTypeNoArray, plus emptyDimension, initializerList],
        all [userType, plus arraySize], all [userType, plus emptyDimension, initializerList],
        all [userType, oneOf [valueArguments, initializerList]]]]
  | .arraySize => all ["[", expression, "]"]
  | .switchExpression =>
    all [
      kwSwitch, "(", expression, ")", "\x7b", .star switchBranch, .optional defaultBranch,
      "\x7d"]
  | .switchBranch => all [switchCondition, "->", statementBody]
  | .switchCondition =>
    all [
      conditionKind, expression, .star (all [",", .absent conditionKind, expression]),
      .optional (all [",", switchCondition])]
  | .conditionKind => oneOf [kwCase, inOperator, instanceOperator]
  | .inOperator => all [.optional "!", "in", .absent identChar]
  | .instanceOperator => all [.optional "!", "instanceof", .absent identChar]
  | .defaultBranch => all [kwDefault, "->", statementBody]
  | .whenExpression => all [kwWhen, "\x7b", .star whenBranch, .optional defaultBranch, "\x7d"]
  | .whenBranch => all [sepBy expression ",", "->", statementBody]
  | .literal =>
    oneOf [
      multilineStringLiteral, stringLiteral, charLiteral, realLiteral, longLiteral,
      integerLiteral, booleanLiteral, nullLiteral, voidLiteral, thisLiteral, superLiteral,
      lambda, initializerList]
  | .multilineStringLiteral => all ["\"\"\"", .star (anyExcept "\"\"\""), "\"\"\""]
  | .stringLiteral =>
    all [
      "\"", .star (oneOf [all ["\\", .char .any], anyExcept (oneOf ["\"", "\\", newline])]),
      "\""]
  | .charLiteral =>
    all [
      "'", oneOf [all ["\\", plus (anyExcept "'")], anyExcept (oneOf ["'", "\\", newline])], "'"]
  | .realLiteral =>
    all [
      oneOf [
        all [digits, ".", digits, .optional exponent, .optional (words ["f", "F"])],
        all [digits, exponent, .optional (words ["f", "F"])], all [digits, words ["f", "F"]]],
      .absent identChar]
  | .longLiteral => all [integerBody, "L", .absent identChar]
  | .integerLiteral => all [integerBody, .optional (words ["u", "U"]), .absent identChar]
  | .booleanLiteral => word ["true", "false"]
  | .nullLiteral => word ["null"]
  | .voidLiteral => word ["void"]
  | .thisLiteral => word ["this"]
  | .superLiteral => all [kwSuper, .optional (all ["<", userType, ">"])]
  | .lambda =>
    all ["(", .optional (sepBy lambdaParameter ","), ")", "=>", oneOf [lambdaBody, expression]]
  | .lambdaParameter =>
    all [
      .star annotationUse, .optional (all [typeOrVar, .ahead simpleIdentifier]),
      simpleIdentifier]
  | .lambdaBody => all ["\x7b", .star statement, .optional expression, "\x7d"]
  | .initializerList =>
    all [
      "\x7b", .optional (oneOf [sepBy dictionaryEntry ",", sepBy valueArgument ","]),
      .optional ",", "\x7d"]
  | .dictionaryEntry => all [expression, ":", expression]

/-- Rules for single words, literals and operators are atomic. -/
def kind : Rule → RuleKind
  | .shebangLine | .keyword | .simpleIdentifier | .identifier | .kwAnnotationType | .kwAs |
    .kwBitfield | .kwBreak | .kwBy | .kwCase | .kwClass | .kwConstructor | .kwContinue |
    .kwDefault | .kwDo | .kwElse | .kwEnum | .kwFor | .kwGet | .kwIf | .kwImport | .kwIn |
    .kwInit | .kwInline | .kwInner | .kwInterface | .kwNew | .kwObject | .kwPackage |
    .kwRecord | .kwReified | .kwReturn | .kwSealed | .kwSet | .kwStatic | .kwSuper |
    .kwSuspend | .kwSwitch | .kwThrow | .kwThrows | .kwVar | .kwWhen | .kwWhile |
    .visibilityModifier | .inheritanceModifier | .varianceModifier | .functionModifierKeyword |
    .propertyModifierKeyword | .primitiveTypeNoArray | .voidType | .prefixOperator |
    .spreadOperator | .postfixToken | .callOperator | .classReference | .assignmentOperator |
    .disjunctionOperator | .conjunctionOperator | .spaceshipOperator | .equalityOperator |
    .shiftOperator | .comparisonOperator | .bitOrOperator | .bitXorOperator | .bitAndOperator |
    .namedCheckOperator | .elvisOperator | .rangeOperator | .sumOperator | .productOperator |
    .inOperator | .instanceOperator | .multilineStringLiteral | .stringLiteral | .charLiteral |
    .realLiteral | .longLiteral | .integerLiteral | .booleanLiteral | .nullLiteral |
    .voidLiteral | .thisLiteral => .atomic
  | _ => .normal

end Grammar

/-- The grammar of source files. -/
def grammar : Peg.Grammar Rule where
  kind := Grammar.kind
  body := Grammar.body
  name := Rule.label
  rules := Rule.list

end QuovaKotlin.Source

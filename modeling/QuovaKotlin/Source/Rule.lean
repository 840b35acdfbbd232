/-!
# Rules of the source grammar

The names of the rules, in the order in which diagnostics list them.
-/

set_option autoImplicit false

namespace QuovaKotlin.Source

inductive Rule
  | endOfInput
  | quovaFile
  | shebangLine
  | packageHeader
  | importHeader
  | importAll
  | importList
  | importAlias
  | keyword
  | simpleIdentifier
  | identifier
  | kwAnnotationType
  | kwAs
  | kwBitfield
  | kwBreak
  | kwBy
  | kwCase
  | kwClass
  | kwConstructor
  | kwContinue
  | kwDefault
  | kwDo
  | kwElse
  | kwEnum
  | kwFor
  | kwGet
  | kwIf
  | kwImport
  | kwIn
  | kwInit
  | kwInline
  | kwInner
  | kwInterface
  | kwNew
  | kwObject
  | kwPackage
  | kwRecord
  | kwReified
  | kwReturn
  | kwSealed
  | kwSet
  | kwStatic
  | kwSuper
  | kwSuspend
  | kwSwitch
  | kwThrow
  | kwThrows
  | kwVar
  | kwWhen
  | kwWhile
  | visibilityModifier
  | inheritanceModifier
  | varianceModifier
  | functionModifierKeyword
  | propertyModifierKeyword
  | declaration
  | typeDeclaration
  | classDeclaration
  | classBody
  | singletonDeclaration
  | singletonBody
  | interfaceDeclaration
  | interfaceBody
  | enumClassDeclaration
  | enumClassBody
  | enumEntry
  | primitiveEnumDeclaration
  | primitiveEnumEntry
  | primitiveEnumValue
  | enumAssign
  | enumShift
  | recordDeclaration
  | inlineClassDeclaration
  | annotationDeclaration
  | annotationBody
  | annotationParameter
  | supertype
  | constructorDeclaration
  | constructorDelegation
  | initBlock
  | functionDeclaration
  | throwsClause
  | functionBody
  | propertyDeclaration
  | property
  | propertyValue
  | propertyDelegate
  | getter
  | setter
  | annotationUse
  | annotationArgument
  | annotationArray
  | valueParameters
  | valueParameter
  | ellipsis
  | valueArguments
  | valueArgument
  | typeParameters
  | typeParameter
  | variantTypeParameters
  | variantTypeParameter
  | typeUse
  | nullable
  | emptyDimension
  | primitiveTypeNoArray
  | primitiveType
  | userType
  | functionType
  | functionTypeParameters
  | typeArguments
  | typeArgument
  | wildcard
  | typeOrVar
  | typeOrVoid
  | voidType
  | statement
  | statementBody
  | emptyStatement
  | block
  | labeledStatement
  | assignment
  | assignableExpression
  | ifStatement
  | forStatement
  | forEachCondition
  | classicForCondition
  | forVariable
  | simpleStatement
  | whileStatement
  | jumpStatement
  | jumpLabel
  | expression
  | forSuffix
  | operatorExpression
  | prefixOperator
  | spreadOperator
  | postfixOperator
  | postfixToken
  | invocationSuffix
  | indexingSuffix
  | callSuffix
  | callOperator
  | classReference
  | castOperator
  | safeCast
  | assignmentOperator
  | ternaryOperator
  | disjunctionOperator
  | conjunctionOperator
  | spaceshipOperator
  | equalityOperator
  | shiftOperator
  | comparisonOperator
  | bitOrOperator
  | bitXorOperator
  | bitAndOperator
  | namedCheckOperator
  | elvisOperator
  | rangeOperator
  | sumOperator
  | productOperator
  | constructorInvocation
  | arraySize
  | switchExpression
  | switchBranch
  | switchCondition
  | conditionKind
  | inOperator
  | instanceOperator
  | defaultBranch
  | whenExpression
  | whenBranch
  | literal
  | multilineStringLiteral
  | stringLiteral
  | charLiteral
  | realLiteral
  | longLiteral
  | integerLiteral
  | booleanLiteral
  | nullLiteral
  | voidLiteral
  | thisLiteral
  | superLiteral
  | lambda
  | lambdaParameter
  | lambdaBody
  | initializerList
  | dictionaryEntry
  deriving DecidableEq, Repr

namespace Rule

/-- The name of a rule in diagnostics. -/
def label : Rule → String
  | .endOfInput => "EOI"
  | .quovaFile => "quova_file"
  | .shebangLine => "shebang_line"
  | .packageHeader => "package_header"
  | .importHeader => "import_header"
  | .importAll => "import_all"
  | .importList => "import_list"
  | .importAlias => "import_alias"
  | .keyword => "keyword"
  | .simpleIdentifier => "simple_identifier"
  | .identifier => "identifier"
  | .kwAnnotationType => "kw_annotation"
  | .kwAs => "kw_as"
  | .kwBitfield => "kw_bitfield"
  | .kwBreak => "kw_break"
  | .kwBy => "kw_by"
  | .kwCase => "kw_case"
  | .kwClass => "kw_class"
  | .kwConstructor => "kw_constructor"
  | .kwContinue => "kw_continue"
  | .kwDefault => "kw_default"
  | .kwDo => "kw_do"
  | .kwElse => "kw_else"
  | .kwEnum => "kw_enum"
  | .kwFor => "kw_for"
  | .kwGet => "kw_get"
  | .kwIf => "kw_if"
  | .kwImport => "kw_import"
  | .kwIn => "kw_in"
  | .kwInit => "kw_init"
  | .kwInline => "kw_inline"
  | .kwInner => "kw_inner"
  | .kwInterface => "kw_interface"
  | .kwNew => "kw_new"
  | .kwObject => "kw_object"
  | .kwPackage => "kw_package"
  | .kwRecord => "kw_record"
  | .kwReified => "kw_reified"
  | .kwReturn => "kw_return"
  | .kwSealed => "kw_sealed"
  | .kwSet => "kw_set"
  | .kwStatic => "kw_static"
  | .kwSuper => "kw_super"
  | .kwSuspend => "kw_suspend"
  | .kwSwitch => "kw_switch"
  | .kwThrow => "kw_throw"
  | .kwThrows => "kw_throws"
  | .kwVar => "kw_var"
  | .kwWhen => "kw_when"
  | .kwWhile => "kw_while"
  | .visibilityModifier => "visibility_modifier"
  | .inheritanceModifier => "inheritance_modifier"
  | .varianceModifier => "variance_modifier"
  | .functionModifierKeyword => "function_modifier_keyword"
  | .propertyModifierKeyword => "property_modifier_keyword"
  | .declaration => "declaration"
  | .typeDeclaration => "type_declaration"
  | .classDeclaration => "class_declaration"
  | .classBody => "class_body"
  | .singletonDeclaration => "singleton_declaration"
  | .singletonBody => "singleton_body"
  | .interfaceDeclaration => "interface_declaration"
  | .interfaceBody => "interface_body"
  | .enumClassDeclaration => "enum_class_declaration"
  | .enumClassBody => "enum_class_body"
  | .enumEntry => "enum_entry"
  | .primitiveEnumDeclaration => "primitive_enum_declaration"
  | .primitiveEnumEntry => "primitive_enum_entry"
  | .primitiveEnumValue => "primitive_enum_value"
  | .enumAssign => "enum_assign"
  | .enumShift => "enum_shift"
  | .recordDeclaration => "record_declaration"
  | .inlineClassDeclaration => "inline_class_declaration"
  | .annotationDeclaration => "annotation_declaration"
  | .annotationBody => "annotation_body"
  | .annotationParameter => "annotation_parameter"
  | .supertype => "supertype"
  | .constructorDeclaration => "constructor_declaration"
  | .constructorDelegation => "constructor_delegation"
  | .initBlock => "init_block"
  | .functionDeclaration => "function_declaration"
  | .throwsClause => "throws_clause"
  | .functionBody => "function_body"
  | .propertyDeclaration => "property_declaration"
  | .property => "property"
  | .propertyValue => "property_value"
  | .propertyDelegate => "property_delegate"
  | .getter => "getter"
  | .setter => "setter"
  | .annotationUse => "annotation"
  | .annotationArgument => "annotation_argument"
  | .annotationArray => "annotation_array"
  | .valueParameters => "value_parameters"
  | .valueParameter => "value_parameter"
  | .ellipsis => "ellipsis"
  | .valueArguments => "value_arguments"
  | .valueArgument => "value_argument"
  | .typeParameters => "type_parameters"
  | .typeParameter => "type_parameter"
  | .variantTypeParameters => "variant_type_parameters"
  | .variantTypeParameter => "variant_type_parameter"
  | .typeUse => "type_use"
  | .nullable => "nullable"
  | .emptyDimension => "empty_dimension"
  | .primitiveTypeNoArray => "primitive_type_no_array"
  | .primitiveType => "primitive_type"
  | .userType => "user_type"
  | .functionType => "function_type"
  | .functionTypeParameters => "function_type_parameters"
  | .typeArguments => "type_arguments"
  | .typeArgument => "type_argument"
  | .wildcard => "wildcard"
  | .typeOrVar => "type_or_var"
  | .typeOrVoid => "type_or_void"
  | .voidType => "void_type"
  | .statement => "statement"
  | .statementBody => "statement_body"
  | .emptyStatement => "empty_statement"
  | .block => "block"
  | .labeledStatement => "labeled_statement"
  | .assignment => "assignment"
  | .assignableExpression => "assignable_expression"
  | .ifStatement => "if_statement"
  | .forStatement => "for_statement"
  | .forEachCondition => "for_each_condition"
  | .classicForCondition => "classic_for_condition"
  | .forVariable => "for_variable"
  | .simpleStatement => "simple_statement"
  | .whileStatement => "while_statement"
  | .jumpStatement => "jump_statement"
  | .jumpLabel => "jump_label"
  | .expression => "expression"
  | .forSuffix => "for_suffix"
  | .operatorExpression => "operator_expression"
  | .prefixOperator => "prefix_operator"
  | .spreadOperator => "spread_operator"
  | .postfixOperator => "postfix_operator"
  | .postfixToken => "postfix_token"
  | .invocationSuffix => "invocation_suffix"
  | .indexingSuffix => "indexing_suffix"
  | .callSuffix => "call_suffix"
  | .callOperator => "call_operator"
  | .classReference => "class_reference"
  | .castOperator => "cast_operator"
  | .safeCast => "safe_cast"
  | .assignmentOperator => "assignment_operator"
  | .ternaryOperator => "ternary_operator"
  | .disjunctionOperator => "disjunction_operator"
  | .conjunctionOperator => "conjunction_operator"
  | .spaceshipOperator => "spaceship_operator"
  | .equalityOperator => "equality_operator"
  | .shiftOperator => "shift_operator"
  | .comparisonOperator => "comparison_operator"
  | .bitOrOperator => "bit_or_operator"
  | .bitXorOperator => "bit_xor_operator"
  | .bitAndOperator => "bit_and_operator"
  | .namedCheckOperator => "named_check_operator"
  | .elvisOperator => "elvis_operator"
  | .rangeOperator => "range_operator"
  | .sumOperator => "sum_operator"
  | .productOperator => "product_operator"
  | .constructorInvocation => "constructor_invocation"
  | .arraySize => "array_size"
  | .switchExpression => "switch_expression"
  | .switchBranch => "switch_branch"
  | .switchCondition => "switch_condition"
  | .conditionKind => "condition_kind"
  | .inOperator => "in_operator"
  | .instanceOperator => "instance_operator"
  | .defaultBranch => "default_branch"
  | .whenExpression => "when_expression"
  | .whenBranch => "when_branch"
  | .literal => "literal"
  | .multilineStringLiteral => "multiline_string_literal"
  | .stringLiteral => "string_literal"
  | .charLiteral => "char_literal"
  | .realLiteral => "real_literal"
  | .longLiteral => "long_literal"
  | .integerLiteral => "integer_literal"
  | .booleanLiteral => "boolean_literal"
  | .nullLiteral => "null_literal"
  | .voidLiteral => "void_literal"
  | .thisLiteral => "this_literal"
  | .superLiteral => "super_literal"
  | .lambda => "lambda"
  | .lambdaParameter => "lambda_parameter"
  | .lambdaBody => "lambda_body"
  | .initializerList => "initializer_list"
  | .dictionaryEntry => "dictionary_entry"

/-- Every rule, in listing order. -/
def list : List Rule := [
  .endOfInput, .quovaFile, .shebangLine, .packageHeader, .importHeader, .importAll, .importList,
  .importAlias, .keyword, .simpleIdentifier, .identifier, .kwAnnotationType, .kwAs, .kwBitfield,
  .kwBreak, .kwBy, .kwCase, .kwClass, .kwConstructor, .kwContinue, .kwDefault, .kwDo, .kwElse,
  .kwEnum, .kwFor, .kwGet, .kwIf, .kwImport, .kwIn, .kwInit, .kwInline, .kwInner, .kwInterface,
  .kwNew, .kwObject, .kwPackage, .kwRecord, .kwReified, .kwReturn, .kwSealed, .kwSet, .kwStatic,
  .kwSuper, .kwSuspend, .kwSwitch, .kwThrow, .kwThrows, .kwVar, .kwWhen, .kwWhile,
  .visibilityModifier, .inheritanceModifier, .varianceModifier, .functionModifierKeyword,
  .propertyModifierKeyword, .declaration, .typeDeclaration, .classDeclaration, .classBody,
  .singletonDeclaration, .singletonBody, .interfaceDeclaration, .interfaceBody,
  .enumClassDeclaration, .enumClassBody, .enumEntry, .primitiveEnumDeclaration,
  .primitiveEnumEntry, .primitiveEnumValue, .enumAssign, .enumShift, .recordDeclaration,
  .inlineClassDeclaration, .annotationDeclaration, .annotationBody, .annotationParameter,
  .supertype, .constructorDeclaration, .constructorDelegation, .initBlock, .functionDeclaration,
  .throwsClause, .functionBody, .propertyDeclaration, .property, .propertyValue,
  .propertyDelegate, .getter, .setter, .annotationUse, .annotationArgument, .annotationArray,
  .valueParameters, .valueParameter, .ellipsis, .valueArguments, .valueArgument,
  .typeParameters, .typeParameter, .variantTypeParameters, .variantTypeParameter, .typeUse,
  .nullable, .emptyDimension, .primitiveTypeNoArray, .primitiveType, .userType, .functionType,
  .functionTypeParameters, .typeArguments, .typeArgument, .wildcard, .typeOrVar, .typeOrVoid,
  .voidType, .statement, .statementBody, .emptyStatement, .block, .labeledStatement,
  .assignment, .assignableExpression, .ifStatement, .forStatement, .forEachCondition,
  .classicForCondition, .forVariable, .simpleStatement, .whileStatement, .jumpStatement,
  .jumpLabel, .expression, .forSuffix, .operatorExpression, .prefixOperator, .spreadOperator,
  .postfixOperator, .postfixToken, .invocationSuffix, .indexingSuffix, .callSuffix,
  .callOperator, .classReference, .castOperator, .safeCast, .assignmentOperator,
  .ternaryOperator, .disjunctionOperator, .conjunctionOperator, .spaceshipOperator,
  .equalityOperator, .shiftOperator, .comparisonOperator, .bitOrOperator, .bitXorOperator,
  .bitAndOperator, .namedCheckOperator, .elvisOperator, .rangeOperator, .sumOperator,
  .productOperator, .constructorInvocation, .arraySize, .switchExpression, .switchBranch,
  .switchCondition, .conditionKind, .inOperator, .instanceOperator, .defaultBranch,
  .whenExpression, .whenBranch, .literal, .multilineStringLiteral, .stringLiteral, .charLiteral,
  .realLiteral, .longLiteral, .integerLiteral, .booleanLiteral, .nullLiteral, .voidLiteral,
  .thisLiteral, .superLiteral, .lambda, .lambdaParameter, .lambdaBody, .initializerList,
  .dictionaryEntry]

end Rule

end QuovaKotlin.Source

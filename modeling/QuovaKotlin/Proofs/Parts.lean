import QuovaKotlin.Ast.Basic

/-!
# Parts of syntax trees

A syntax tree holds expressions in statements, statements in declarations, declarations in
expressions. `Part` puts all of them into one type, so that "somewhere in the file, at any depth" is
one relation. Types and names hold no other parts and are none themselves.
-/

set_option autoImplicit false

namespace QuovaKotlin.Ast

/-- A part of a syntax tree. -/
inductive Part
  | expression (value : Expression)
  | suffix (operator : PostfixOperator)
  | argument (argument : Argument)
  | dictionaryEntry (entry : DictionaryEntry)
  | lambdaParameter (parameter : LambdaParameter)
  | lambdaBody (body : LambdaBody)
  | branch (branch : Branch)
  | condition (condition : Condition)
  | annotationUse (use : AnnotationUse)
  | annotationArgument (argument : AnnotationArgument)
  | statement (statement : Statement)
  | forVariable (item : ForVariable)
  | declaration (declaration : Declaration)
  | typeKind (kind : TypeKind)
  | constant (entry : ConstantEntry Expression)
  | enumEntry (entry : EnumEntry)
  | supertype (supertype : Supertype)
  | member (member : Member)
  | delegation (delegation : Delegation)
  | function (declaration : FunctionDeclaration)
  | functionBody (body : FunctionBody)
  | properties (declaration : PropertyDeclaration)
  | property (property : Property)
  | accessor (accessor : Accessor)
  | parameter (parameter : Parameter)
  | typeParameter (parameter : TypeParameter)

def Expression.parts : Expression → List Part
  | .literal _ | .identifier _ => []
  | .construct _ arguments | .arrayOf _ arguments | .initializer arguments =>
    arguments.map .argument
  | .dictionary entries => entries.map .dictionaryEntry
  | .lambda parameters body => parameters.map .lambdaParameter ++ [.lambdaBody body]
  | .switch subject branches fallback =>
    subject.toList.map .expression ++ branches.map .branch ++ fallback.toList.map .statement
  | .parenthesized operand | .prefixed _ operand | .cast operand _ _ | .spread operand =>
    [.expression operand]
  | .suffixed operand operator => [.expression operand, .suffix operator]
  | .binary _ left right => [.expression left, .expression right]
  | .ternary condition consequent alternative =>
    [.expression condition, .expression consequent, .expression alternative]
  | .assign target _ value => [.expression target, .expression value]
  | .comprehension mapping _ source condition =>
    [.expression mapping, .expression source] ++ condition.toList.map .expression

def PostfixOperator.parts : PostfixOperator → List Part
  | .increment | .decrement | .notNull | .call .. => []
  | .invocation _ arguments => arguments.map .argument
  | .indexing indices => indices.map .expression

def LambdaBody.parts : LambdaBody → List Part
  | .expression value => [.expression value]
  | .block statements result => statements.map .statement ++ result.toList.map .expression

def AnnotationArgument.parts : AnnotationArgument → List Part
  | .single _ value => [.expression value]
  | .array _ values => values.map .expression

def Statement.parts : Statement → List Part
  | .labeled _ statement => [.statement statement]
  | .assignment target _ value => [.expression target, .expression value]
  | .conditional condition consequent alternative =>
    [.expression condition, .statement consequent] ++ alternative.toList.map .statement
  | .forEach _ source body => [.expression source, .statement body]
  | .forClassic initial conditions updates body =>
    initial.map .forVariable ++ conditions.map .expression ++ updates.map .statement ++
      [.statement body]
  | .loop _ condition body => [.expression condition, .statement body]
  | .break _ | .continue _ | .empty => []
  | .throw value | .expression value => [.expression value]
  | .return _ value => value.toList.map .expression
  | .block statements => statements.map .statement
  | .declaration inner => [.declaration inner]

def Declaration.parts : Declaration → List Part
  | .type annotations _ _ kind => annotations.map .annotationUse ++ [.typeKind kind]
  | .function declaration => [.function declaration]
  | .property declaration => [.properties declaration]

def Members.parts (members : Members) : List Part :=
  members.instances.map .member ++ members.statics.map .member

def TypeKind.parts : TypeKind → List Part
  | .classType _ typeParameters parameters supertypes members =>
    typeParameters.map .typeParameter ++ (parameters.getD []).map .parameter ++
      supertypes.map .supertype ++ members.parts
  | .singleton supertypes members => supertypes.map .supertype ++ members.parts
  | .interface typeParameters _ members => typeParameters.map .typeParameter ++ members.parts
  | .enumClass typeParameters parameters supertypes entries members =>
    typeParameters.map .typeParameter ++ (parameters.getD []).map .parameter ++
      supertypes.map .supertype ++ entries.map .enumEntry ++ members.parts
  | .constants _ _ entries => entries.map .constant
  | .record typeParameters parameters supertypes members =>
    typeParameters.map .typeParameter ++ parameters.map .parameter ++
      supertypes.map .supertype ++ members.parts
  | .inlineClass parameter supertypes members =>
    [.parameter parameter] ++ supertypes.map .supertype ++ members.parts
  | .annotationType parameters members => parameters.map .parameter ++ members.parts

def constantParts : ConstantEntry Expression → List Part
  | .implicit _ => []
  | .assigned _ value | .shifted _ value => [.expression value]

def Supertype.parts : Supertype → List Part
  | .bare _ => []
  | .initialized _ arguments => arguments.map .argument
  | .delegated _ delegate => [.expression delegate]

def Member.parts : Member → List Part
  | .declaration inner => [.declaration inner]
  | .constructor annotations _ parameters delegations body =>
    annotations.map .annotationUse ++ parameters.map .parameter ++
      delegations.map .delegation ++ [.functionBody body]
  | .initializer _ body => body.map .statement

def FunctionBody.parts : FunctionBody → List Part
  | .absent => []
  | .block statements => statements.map .statement
  | .expression value => [.expression value]

namespace Part

/-- The parts directly in a part. -/
def children : Part → List Part
  | expression e => e.parts
  | suffix op => op.parts
  | argument a => [.expression a.value]
  | dictionaryEntry e => [.expression e.key, .expression e.value]
  | lambdaParameter p => p.annotations.map .annotationUse
  | lambdaBody b => b.parts
  | branch b => b.conditions.map .condition ++ [.statement b.body]
  | condition c => [.expression c.value]
  | annotationUse a => a.arguments.map .annotationArgument
  | annotationArgument a => a.parts
  | statement s => s.parts
  | forVariable v => [.expression v.value]
  | declaration d => d.parts
  | typeKind k => k.parts
  | constant c => constantParts c
  | enumEntry e =>
    e.annotations.map .annotationUse ++ e.arguments.map .argument ++ (e.body.getD []).map .member
  | supertype s => s.parts
  | member m => m.parts
  | delegation d => d.arguments.map .argument
  | function f =>
    f.annotations.map .annotationUse ++ f.typeParameters.map .typeParameter ++
      f.parameters.map .parameter ++ [.functionBody f.body]
  | functionBody b => b.parts
  | properties p => p.annotations.map .annotationUse ++ p.properties.map .property
  | property p =>
    p.value.toList.map .expression ++ p.delegate.toList.map .expression ++
      p.getter.toList.map .accessor ++ p.setter.toList.map .accessor
  | accessor a => a.annotations.map .annotationUse ++ [.functionBody a.body]
  | parameter p => p.annotations.map .annotationUse ++ p.fallback.toList.map .expression
  | typeParameter p => p.annotations.map .annotationUse

/-- The first part is the second or stands in it, at any depth. -/
inductive Within : Part → Part → Prop
  | self (part : Part) : Within part part
  | child {part whole child : Part} : child ∈ whole.children → Within part child →
      Within part whole

theorem Within.trans {inner part whole : Part} (h : Within inner part) (h' : Within part whole) :
    Within inner whole := by
  induction h' with
  | self => exact h
  | child hmem _ ih => exact .child hmem ih

/-- Something holds of a part and of all that stands in it. -/
inductive Every (P : Part → Prop) : Part → Prop
  | intro {part : Part} : P part → (∀ child ∈ part.children, Every P child) → Every P part

variable {P : Part → Prop} {part whole : Part}

theorem Every.of_within (h : Every P whole) (hwithin : Within part whole) : P part := by
  induction hwithin with
  | self =>
    cases h with
    | intro hself _ => exact hself
  | child hmem _ ih =>
    cases h with
    | intro _ hchildren => exact ih (hchildren _ hmem)

end Part

/-- The part stands in a declaration of the file. -/
def SourceFile.Contains (file : SourceFile) (part : Part) : Prop :=
  ∃ declaration ∈ file.declarations, part.Within (.declaration declaration)

theorem SourceFile.Contains.within {file : SourceFile} {inner part : Part}
    (h : file.Contains part) (hinner : inner.Within part) : file.Contains inner := by
  obtain ⟨declaration, hmem, hpart⟩ := h
  exact ⟨declaration, hmem, hinner.trans hpart⟩

end QuovaKotlin.Ast

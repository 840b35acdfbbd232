import QuovaKotlin.Proofs.BalancedTexts
import QuovaKotlin.Proofs.PrintedParts

/-!
# Nested brackets in printed files

The text of each part of a syntax tree is balanced if the texts of the parts directly in it are, and
no word of it holds a bracket. By induction over the parts the text of a whole file is nested,
whatever the file declares.
-/

set_option autoImplicit false

namespace QuovaKotlin.Ast

open Text

/-- The value of a constant has a balanced text. -/
def constantBalanced : ConstantEntry Expression → Prop
  | .implicit _ => True
  | .assigned _ value | .shifted _ value => Balanced value.kotlin

/--
Every text that is printed for the part is balanced. What surrounds a part decides how it is
printed: a type by its name, a property by the head of its declaration, a parameter by its role. The
block that is the body of a classic loop is printed without its braces.
-/
def Part.IsBalanced : Part → Prop
  | expression e => Balanced e.kotlin
  | suffix op => Balanced op.kotlin
  | argument a => Balanced a.kotlin
  | dictionaryEntry e => Balanced e.kotlin
  | lambdaParameter p => Balanced p.kotlin
  | lambdaBody b => Balanced b.kotlin
  | branch b => Balanced b.kotlin
  | condition c => Balanced c.kotlin
  | annotationUse a => Balanced a.kotlin
  | annotationArgument a => Balanced a.kotlin
  | statement s =>
    Balanced s.kotlin ∧ ∀ inner, s = .block inner → AllBalanced (Statement.kotlinEach inner)
  | forVariable v => Balanced v.kotlin
  | declaration d => Balanced d.kotlin
  | typeKind k => ∀ name, BracketFree name → Balanced (k.kotlin name)
  | constant c => BracketFree c.name ∧ constantBalanced c
  | enumEntry e => Balanced e.kotlin
  | supertype s => Balanced s.kotlin
  | member m => Balanced m.kotlin
  | delegation d => Balanced d.kotlin
  | function f => Balanced f.kotlin
  | functionBody b => Balanced b.kotlin
  | properties p => Balanced p.kotlin
  | property p => ∀ head type, Balanced head → Balanced (typeMark type) →
      Balanced (p.kotlin head type)
  | accessor a => Balanced a.kotlinGet ∧ Balanced a.kotlinSet
  | parameter p => ∀ role, Balanced (p.kotlin role)
  | typeParameter p => Balanced p.kotlin ∧ AllFree (typeParameter p).words

/-- All of the parts are balanced. -/
def PartsBalanced (parts : List Part) : Prop :=
  ∀ part ∈ parts, part.IsBalanced

namespace PartsBalanced

variable {part : Part} {parts others : List Part}

theorem head (h : PartsBalanced (part :: parts)) : part.IsBalanced :=
  h part List.mem_cons_self

theorem tail (h : PartsBalanced (part :: parts)) : PartsBalanced parts :=
  fun other hother => h other (List.mem_cons_of_mem part hother)

theorem split (h : PartsBalanced (parts ++ others)) :
    PartsBalanced parts ∧ PartsBalanced others :=
  List.forall_mem_append.mp h

theorem of_map {α : Type} {make : α → Part} {xs : List α} (h : PartsBalanced (xs.map make)) :
    ∀ x ∈ xs, (make x).IsBalanced :=
  List.forall_mem_map.mp h

end PartsBalanced

section

variable {arguments : List Argument} {annotations : List AnnotationUse}
  {expressions : List Expression} {statements : List Statement} {supertypes : List Supertype}
  {members : List Member} {parameters : List Parameter} {typeParameters : List TypeParameter}

theorem Argument.balanced_each (h : PartsBalanced (arguments.map .argument)) :
    AllBalanced (Argument.kotlinEach arguments) :=
  .each rfl (fun _ _ => rfl) h.of_map

theorem AnnotationUse.balanced_each (h : PartsBalanced (annotations.map .annotationUse)) :
    AllBalanced (AnnotationUse.kotlinEach annotations) :=
  .each rfl (fun _ _ => rfl) h.of_map

/-- The annotations in front of what they stand on. -/
theorem AnnotationUse.balanced_endEach {terminator : String}
    (h : PartsBalanced (annotations.map .annotationUse)) (hterminator : Balanced terminator) :
    Balanced (endEach terminator (AnnotationUse.kotlinEach annotations)) :=
  (AnnotationUse.balanced_each h).endEach hterminator

theorem Expression.balanced_each (h : PartsBalanced (expressions.map .expression)) :
    AllBalanced (Expression.kotlinEach expressions) :=
  .each rfl (fun _ _ => rfl) h.of_map

theorem Expression.balanced_conjuncts (h : PartsBalanced (expressions.map .expression)) :
    AllBalanced (Expression.conjuncts expressions) :=
  .each rfl (fun _ _ => rfl) fun e he =>
    Rendered.balanced_under (r := ⟨e.priority, e.kotlin⟩) (h.of_map e he) _

theorem Statement.balanced_each (h : PartsBalanced (statements.map .statement)) :
    AllBalanced (Statement.kotlinEach statements) :=
  .each rfl (fun _ _ => rfl) fun s hs => (h.of_map s hs).1

theorem Supertype.balanced_each (h : PartsBalanced (supertypes.map .supertype)) :
    AllBalanced (Supertype.kotlinEach supertypes) :=
  .each rfl (fun _ _ => rfl) h.of_map

theorem Member.balanced_each (h : PartsBalanced (members.map .member)) :
    AllBalanced (Member.kotlinEach members) :=
  .each rfl (fun _ _ => rfl) h.of_map

theorem Parameter.balanced_each (h : PartsBalanced (parameters.map .parameter))
    (role : ParameterRole) : AllBalanced (Parameter.kotlinEach role parameters) :=
  .each rfl (fun _ _ => rfl) fun p hp => h.of_map p hp role

theorem TypeParameter.balanced_each (h : PartsBalanced (typeParameters.map .typeParameter)) :
    AllBalanced (TypeParameter.kotlinEach typeParameters) :=
  .each rfl (fun _ _ => rfl) fun p hp => (h.of_map p hp).1

theorem TypeParameter.balanced_where (h : PartsBalanced (typeParameters.map .typeParameter)) :
    Balanced (whereClause (TypeParameter.bounds typeParameters)) :=
  balanced_whereClause fun p hp => (h.of_map p hp).2

end

section

variable {members : Members}

theorem Members.balanced_body (h : PartsBalanced members.parts) : Balanced members.body := by
  obtain ⟨instances, statics⟩ := members
  obtain ⟨hinstances, hstatics⟩ := h.split
  exact balanced_memberBody (Member.balanced_each hinstances) (Member.balanced_each hstatics)

theorem Members.balanced_flatBody (h : PartsBalanced members.parts) :
    Balanced members.flatBody := by
  obtain ⟨instances, statics⟩ := members
  obtain ⟨-, hstatics⟩ := h.split
  exact balanced_empty.ite (Opens.start " \x7b\n" rfl |>.text (Member.balanced_each hstatics).lines
    |>.mark "\n\x7d" rfl)

theorem Members.balanced_tail (h : PartsBalanced members.parts) : Balanced members.tail := by
  obtain ⟨instances, statics⟩ := members
  obtain ⟨hinstances, hstatics⟩ := h.split
  exact balanced_empty.ite (Opens.start "\n" rfl
    |>.text (balanced_memberList (Member.balanced_each hinstances) (Member.balanced_each hstatics)))

end

/-- An operand with its priority, under any operator. -/
theorem Expression.balanced_under {e : Expression} (h : Balanced e.kotlin) (enclosing : Int) :
    Balanced (Rendered.under ⟨e.priority, e.kotlin⟩ enclosing) :=
  Rendered.balanced_under (r := ⟨e.priority, e.kotlin⟩) h enclosing

theorem Expression.kotlin_switch (subject : Option Expression) (branches : List Branch)
    (fallback : Option Statement) :
    (Expression.switch subject branches fallback).kotlin =
      (match subject with
        | none => "when"
        | some subject => "when (" ++ subject.kotlin ++ ")") ++ " \x7b\n" ++
        endEach "\n" (Branch.kotlinEach branches) ++
        (match fallback with
          | none => ""
          | some body => "else -> " ++ body.kotlin ++ "\n") ++ "\x7d" := by
  cases subject <;> cases fallback <;> rfl

/-- The braces of a lambda stand around a balanced text. -/
theorem Expression.kotlin_lambda {parameters : List LambdaParameter} {body : LambdaBody}
    (hparts : PartsBalanced (Expression.lambda parameters body).parts) :
    ∃ inner, (Expression.lambda parameters body).kotlin = "\x7b" ++ inner ++ "\x7d" ∧
      Balanced inner := by
  obtain ⟨hparameters, hbody⟩ := hparts.split
  have htexts : AllBalanced (LambdaParameter.kotlinEach parameters) :=
    .each rfl (fun _ _ => rfl) hparameters.of_map
  have hhead : Balanced (" " ++ commas (LambdaParameter.kotlinEach parameters) ++ " ->") :=
    Opens.start " " rfl |>.text htexts.commas |>.mark " ->" rfl
  refine ⟨_, ?_, (hhead.onlyIf (! (LambdaParameter.kotlinEach parameters).isEmpty)).append
    hbody.head⟩
  rw [← String.append_assoc]
  rfl

theorem Expression.balanced {e : Expression} (hwords : AllFree e.words)
    (hparts : PartsBalanced e.parts) : Balanced e.kotlin := by
  cases e with
  | literal value => exact Literal.balanced hwords
  | identifier name => exact (hwords name List.mem_cons_self).balanced
  | construct type arguments =>
    exact (TypeRef.balanced hwords).append
      (balanced_callList arguments (Argument.balanced_each hparts))
  | arrayOf element elements =>
    exact (balanced_arrayFactory hwords).mark "(" rfl
      |>.text (Argument.balanced_each hparts).commas |>.mark ")" rfl
  | initializer elements =>
    exact Opens.start "quova.internal.fittingArray(" rfl
      |>.text (Argument.balanced_each hparts).commas |>.mark ")" rfl
  | dictionary entries =>
    have hentries : AllBalanced (DictionaryEntry.kotlinEach entries) :=
      .each rfl (fun _ _ => rfl) hparts.of_map
    exact Opens.start "hashMapOf(" rfl |>.text hentries.commas |>.mark ")" rfl
  | lambda parameters body =>
    obtain ⟨inner, htext, hinner⟩ := kotlin_lambda hparts
    rw [htext]
    exact Opens.start "\x7b" rfl |>.text hinner |>.mark "\x7d" rfl
  | switch subject branches fallback =>
    obtain ⟨hsubject, hfallback⟩ := hparts.split
    obtain ⟨hsubject, hbranches⟩ := hsubject.split
    have htexts : AllBalanced (Branch.kotlinEach branches) :=
      .each rfl (fun _ _ => rfl) hbranches.of_map
    have hlines : Balanced (endEach "\n" (Branch.kotlinEach branches)) :=
      htexts.endEach fun _ => rfl
    rw [kotlin_switch]
    refine ((Balanced.mark ?_ " \x7b\n" rfl).text hlines |>.text ?_).mark "\x7d" rfl
    · cases subject with
      | none => exact fun _ => rfl
      | some subject =>
        exact Opens.start "when (" rfl |>.text hsubject.head |>.mark ")" rfl
    · cases fallback with
      | none => exact balanced_empty
      | some body =>
        exact Opens.start "else -> " rfl |>.text hfallback.head.1 |>.mark "\n" rfl
  | parenthesized inner => exact hparts.head.parens
  | suffixed operand operator =>
    exact (balanced_under hparts.head _).append hparts.tail.head
  | prefixed operator operand =>
    exact operator.balanced_before _ hparts.head
  | cast operand type safe =>
    have hsafe : Balanced (onlyIf safe "?") := .onlyIf _ fun _ => rfl
    exact (balanced_under hparts.head _).mark " as" rfl
      |>.text hsafe |>.mark " " rfl |>.text (TypeRef.balanced hwords)
  | binary operator left right =>
    exact Rendered.balanced_join operator hparts.head hparts.tail.head
  | ternary condition consequent alternative =>
    exact Opens.start "if (" rfl |>.text hparts.head |>.mark ") " rfl
      |>.text (balanced_under hparts.tail.head _) |>.mark " else " rfl
      |>.text (balanced_under hparts.tail.tail.head _)
  | spread operand =>
    exact Opens.start "*" rfl |>.text (balanced_under hparts.head _)
  | assign target operator value =>
    exact operator.balanced_asValue hparts.head hparts.tail.head
  | comprehension mapping item source condition =>
    have hitem : Balanced item.kotlin := LoopVariable.balanced hwords
    have hmapping : Balanced mapping.kotlin := hparts.head
    have hsource : Balanced source.kotlin := hparts.tail.head
    have hcondition := hparts.tail.tail
    -- The text unfolds only where the condition is known to be there or not.
    have htext {filter : String} (hfilter : Balanced filter) :=
      ((balanced_under hsource Priority.suffixed).append hfilter).mark ".map \x7b " rfl
        |>.text hitem |>.mark " -> " rfl |>.text hmapping |>.mark " \x7d" rfl
    cases condition with
    | none => exact htext balanced_empty
    | some condition =>
      exact htext (Opens.start ".filter \x7b " rfl |>.text hitem |>.mark " -> " rfl
        |>.text hcondition.head |>.mark " \x7d" rfl)

theorem PostfixOperator.balanced {operator : PostfixOperator} (hwords : AllFree operator.words)
    (hparts : PartsBalanced operator.parts) : Balanced operator.kotlin := by
  cases operator with
  | increment | decrement | notNull => exact fun _ => rfl
  | invocation typeArguments arguments =>
    exact (balanced_angleList (TypeArgument.balanced_each hwords)).append
      (balanced_callList arguments (Argument.balanced_each hparts))
  | indexing indices =>
    exact Opens.start "[" rfl |>.text (Expression.balanced_each hparts).commas |>.mark "]" rfl
  | call kind target => exact kind.balanced.append (CallTarget.balanced hwords)

theorem LambdaBody.balanced {body : LambdaBody} (hparts : PartsBalanced body.parts) :
    Balanced body.kotlin := by
  cases body with
  | expression value => exact Opens.start " " rfl |>.text hparts.head |>.mark " " rfl
  | block statements result =>
    obtain ⟨hstatements, hresult⟩ := hparts.split
    have hlines : Balanced (endEach "\n" (Statement.kotlinEach statements)) :=
      (Statement.balanced_each hstatements).endEach fun _ => rfl
    have hblock := Opens.start "\n" rfl |>.text hlines
    cases result with
    | none => exact hblock.text balanced_empty
    | some value => exact hblock.text (Balanced.mark hresult.head "\n" rfl)

theorem AnnotationArgument.balanced {argument : AnnotationArgument}
    (hwords : AllFree argument.words) (hparts : PartsBalanced argument.parts) :
    Balanced argument.kotlin := by
  cases argument with
  | single name value => exact (balanced_nameMark hwords).append hparts.head
  | array name values =>
    exact (balanced_nameMark hwords).mark "[" rfl |>.text (Expression.balanced_each hparts).commas
      |>.mark "]" rfl

/-- The statements of a block go next to the updates, inside the braces of the loop. -/
theorem Statement.balanced_forClassic {initial : List ForVariable} {conditions : List Expression}
    {updates : List Statement} {body : Statement}
    (hparts : PartsBalanced (Statement.forClassic initial conditions updates body).parts) :
    Balanced (Statement.forClassic initial conditions updates body).kotlin := by
  obtain ⟨hparts, hbody⟩ := hparts.split
  obtain ⟨hparts, hupdates⟩ := hparts.split
  obtain ⟨hinitial, hconditions⟩ := hparts.split
  have htest : Balanced (if conditions.isEmpty then "true"
      else joinWith " && " (Expression.conjuncts conditions)) :=
    .ite (fun _ => rfl) ((Expression.balanced_conjuncts hconditions).joinWith fun _ => rfl)
  have hvariables : AllBalanced (ForVariable.kotlinEach initial) :=
    .each rfl (fun _ _ => rfl) hinitial.of_map
  have hdeclared : Balanced (endEach "\n" (ForVariable.kotlinEach initial)) :=
    hvariables.endEach fun _ => rfl
  have hstepped : Balanced (endEach "\n" (Statement.kotlinEach updates)) :=
    (Statement.balanced_each hupdates).endEach fun _ => rfl
  -- Everything around the body is the same for each kind of body.
  have htext {inner : String} (hinner : Balanced inner) :=
    Opens.start "run \x7b\n" rfl |>.text hdeclared |>.mark "while (" rfl |>.text htest
      |>.mark ") \x7b\n" rfl |>.text hinner |>.text hstepped |>.mark "\x7d\n\x7d" rfl
  obtain ⟨hwhole, hinner⟩ := hbody.head
  cases body with
  | block statements => exact htext ((hinner statements rfl).endEach fun _ => rfl)
  | empty => exact htext balanced_empty
  | labeled | assignment | conditional | forEach | forClassic | loop | «break» | «continue» | throw
  | «return» | declaration | expression => exact htext (hwhole.mark "\n" rfl)

theorem Statement.balanced {s : Statement} (hwords : AllFree s.words)
    (hparts : PartsBalanced s.parts) : Balanced s.kotlin := by
  cases s with
  | labeled label statement =>
    exact (hwords label List.mem_cons_self).balanced.mark "@ " rfl |>.text hparts.head.1
  | assignment target operator value =>
    exact operator.balanced_asStatement hparts.head hparts.tail.head
  | conditional condition consequent alternative =>
    have htext := Opens.start "if (" rfl |>.text hparts.head |>.mark ") " rfl
      |>.text hparts.tail.head.1
    have halternative := hparts.tail.tail
    cases alternative with
    | none => exact htext.text balanced_empty
    | some body => exact htext.text (Opens.start " else " rfl |>.text halternative.head.1)
  | forEach item source body =>
    exact Opens.start "for (" rfl |>.text (LoopVariable.balanced hwords) |>.mark " in " rfl
      |>.text hparts.head |>.mark ") " rfl |>.text hparts.tail.head.1
  | forClassic initial conditions updates body => exact balanced_forClassic hparts
  | loop testsLast condition body =>
    have hcondition : Balanced condition.kotlin := hparts.head
    have hbody : Balanced body.kotlin := hparts.tail.head.1
    cases testsLast with
    | true =>
      exact Opens.start "do " rfl |>.text hbody |>.mark " while (" rfl |>.text hcondition
        |>.mark ")" rfl
    | false =>
      exact Opens.start "while (" rfl |>.text hcondition |>.mark ") " rfl |>.text hbody
  | «break» label | «continue» label => exact balanced_jumpText (fun _ => rfl) hwords
  | throw value => exact Opens.start "throw " rfl |>.text hparts.head
  | «return» label value =>
    have hreturn : Balanced (jumpText "return" label) := balanced_jumpText (fun _ => rfl) hwords
    cases value with
    | none => exact hreturn
    | some value => exact hreturn.mark " " rfl |>.text hparts.head
  | block statements => exact balanced_blockText (Statement.balanced_each hparts)
  | declaration declaration => exact hparts.head
  | expression value => exact hparts.head
  | empty => exact fun _ => rfl

theorem Expression.balanced_renderEntries {entries : List (ConstantEntry Expression)}
    (h : PartsBalanced (entries.map .constant)) :
    ∀ entry ∈ Expression.renderEntries entries, BracketFree entry.name ∧ entry.ValueBalanced := by
  induction entries with
  | nil => exact List.forall_mem_nil _
  | cons entry entries ih =>
    have hentry := h.head
    have hentries := ih h.tail
    cases entry <;> exact List.forall_mem_cons.mpr ⟨hentry, hentries⟩

theorem TypeKind.balanced {kind : TypeKind} {name : String} (hname : BracketFree name)
    (hwords : AllFree kind.words) (hparts : PartsBalanced kind.parts) :
    Balanced (kind.kotlin name) := by
  cases kind with
  | classType modifiers typeParameters parameters supertypes members =>
    obtain ⟨hparts, hmembers⟩ := hparts.split
    obtain ⟨hparts, hsupertypes⟩ := hparts.split
    obtain ⟨htypes, hparameters⟩ := hparts.split
    have htext {list : String} (hlist : Balanced list) :=
      modifiers.balanced.mark "class " rfl |>.text hname.balanced
        |>.text (balanced_angleList (TypeParameter.balanced_each htypes)) |>.text hlist
        |>.text (balanced_supertypeList (Supertype.balanced_each hsupertypes))
        |>.text (TypeParameter.balanced_where htypes) |>.text (Members.balanced_body hmembers)
    cases parameters with
    | none => exact htext balanced_empty
    | some parameters => exact htext (Parameter.balanced_each hparameters .primary).commas.parens
  | singleton supertypes members =>
    obtain ⟨hsupertypes, hmembers⟩ := hparts.split
    exact Opens.start "object " rfl |>.text hname.balanced
      |>.text (balanced_supertypeList (Supertype.balanced_each hsupertypes))
      |>.text (Members.balanced_flatBody hmembers)
  | interface typeParameters supertypes members =>
    obtain ⟨htypes, hmembers⟩ := hparts.split
    have hsupertypes : AllBalanced (supertypes.map (·.kotlin)) :=
      .map fun type htype => UserType.balanced fun word hword =>
        hwords word (List.mem_flatMap.mpr ⟨type, htype, hword⟩)
    exact Opens.start "interface " rfl |>.text hname.balanced
      |>.text (balanced_angleList (TypeParameter.balanced_each htypes))
      |>.text (balanced_supertypeList hsupertypes) |>.text (TypeParameter.balanced_where htypes)
      |>.text (Members.balanced_body hmembers)
  | enumClass typeParameters parameters supertypes entries members =>
    obtain ⟨hparts, hmembers⟩ := hparts.split
    obtain ⟨hparts, hentries⟩ := hparts.split
    obtain ⟨hparts, hsupertypes⟩ := hparts.split
    obtain ⟨htypes, hparameters⟩ := hparts.split
    have htexts : AllBalanced (EnumEntry.kotlinEach entries) :=
      .each rfl (fun _ _ => rfl) hentries.of_map
    have hlines : Balanced (joinWith ",\n" (EnumEntry.kotlinEach entries)) :=
      htexts.joinWith fun _ => rfl
    have htext {list : String} (hlist : Balanced list) :=
      Opens.start "enum class " rfl |>.text hname.balanced
        |>.text (balanced_angleList (TypeParameter.balanced_each htypes)) |>.text hlist
        |>.text (balanced_supertypeList (Supertype.balanced_each hsupertypes))
        |>.text (TypeParameter.balanced_where htypes) |>.mark " \x7b\n" rfl |>.text hlines
        |>.mark ";" rfl |>.text (Members.balanced_tail hmembers) |>.mark "\n\x7d" rfl
    cases parameters with
    | none => exact htext balanced_empty
    | some parameters => exact htext (Parameter.balanced_each hparameters .primary).commas.parens
  | constants bitfield type entries =>
    have hentries := Expression.balanced_renderEntries hparts
    have hlines : Balanced (endEach "\n"
        (constantLines type bitfield (Expression.renderEntries entries))) :=
      (allBalanced_constantLines type bitfield (fun entry h => (hentries entry h).1)
        fun entry h => (hentries entry h).2).endEach fun _ => rfl
    exact Opens.start "object " rfl |>.text hname.balanced |>.mark " \x7b\n" rfl |>.text hlines
      |>.mark "\x7d" rfl
  | record typeParameters parameters supertypes members =>
    obtain ⟨hparts, hmembers⟩ := hparts.split
    obtain ⟨hparts, hsupertypes⟩ := hparts.split
    obtain ⟨htypes, hparameters⟩ := hparts.split
    exact Opens.start "data class " rfl |>.text hname.balanced
      |>.text (balanced_angleList (TypeParameter.balanced_each htypes)) |>.mark "(" rfl
      |>.text (Parameter.balanced_each hparameters .component).commas |>.mark ")" rfl
      |>.text (balanced_supertypeList (Supertype.balanced_each hsupertypes))
      |>.text (TypeParameter.balanced_where htypes) |>.text (Members.balanced_body hmembers)
  | inlineClass parameter supertypes members =>
    obtain ⟨hparts, hmembers⟩ := hparts.split
    obtain ⟨hparameter, hsupertypes⟩ := hparts.split
    exact Opens.start "inline class " rfl |>.text hname.balanced |>.mark "(" rfl
      |>.text (hparameter.head .component) |>.mark ")" rfl
      |>.text (balanced_supertypeList (Supertype.balanced_each hsupertypes))
      |>.text (Members.balanced_body hmembers)
  | annotationType parameters members =>
    obtain ⟨hparameters, hmembers⟩ := hparts.split
    exact Opens.start "annotation class " rfl |>.text hname.balanced
      |>.text (balanced_nonemptyList (Parameter.balanced_each hparameters .component))
      |>.text (Members.balanced_body hmembers)

theorem EnumEntry.balanced {entry : EnumEntry} (hwords : AllFree (Part.enumEntry entry).words)
    (hparts : PartsBalanced (Part.enumEntry entry).children) : Balanced entry.kotlin := by
  obtain ⟨annotations, name, arguments, body⟩ := entry
  obtain ⟨hparts, hbody⟩ := hparts.split
  obtain ⟨hannotations, harguments⟩ := hparts.split
  have hhead : Balanced (endEach " " (AnnotationUse.kotlinEach annotations)) :=
    AnnotationUse.balanced_endEach hannotations fun _ => rfl
  have htext := (hhead.append (hwords name List.mem_cons_self).balanced).append
    (balanced_nonemptyList (Argument.balanced_each harguments))
  cases body with
  | none => exact htext.append balanced_empty
  | some members =>
    exact htext.append (Opens.start " \x7b\n" rfl |>.text (Member.balanced_each hbody).lines
      |>.mark "\n\x7d" rfl)

theorem Supertype.balanced {supertype : Supertype} (hwords : AllFree supertype.words)
    (hparts : PartsBalanced supertype.parts) : Balanced supertype.kotlin := by
  cases supertype with
  | bare type => exact UserType.balanced hwords
  | initialized type arguments =>
    exact (UserType.balanced hwords).mark "(" rfl |>.text (Argument.balanced_each hparts).commas
      |>.mark ")" rfl
  | delegated type delegate =>
    exact (UserType.balanced hwords).mark " by " rfl |>.text hparts.head

theorem Member.balanced {m : Member} (hparts : PartsBalanced m.parts) : Balanced m.kotlin := by
  cases m with
  | declaration declaration => exact hparts.head
  | «constructor» annotations visibility parameters delegations body =>
    obtain ⟨hparts, hbody⟩ := hparts.split
    obtain ⟨hparts, hdelegations⟩ := hparts.split
    obtain ⟨hannotations, hparameters⟩ := hparts.split
    have hhead : Balanced (endEach "\n" (AnnotationUse.kotlinEach annotations)) :=
      AnnotationUse.balanced_endEach hannotations fun _ => rfl
    have hcalls : AllBalanced (Delegation.kotlinEach delegations) :=
      .each rfl (fun _ _ => rfl) hdelegations.of_map
    exact (hhead.append visibility.balanced).mark "constructor(" rfl
      |>.text (Parameter.balanced_each hparameters .value).commas |>.mark ")" rfl
      |>.text (balanced_supertypeList hcalls) |>.text hbody.head
  | initializer isStatic body =>
    exact Opens.start "init " rfl |>.text (balanced_blockText (Statement.balanced_each hparts))

theorem FunctionBody.balanced {body : FunctionBody} (hparts : PartsBalanced body.parts) :
    Balanced body.kotlin := by
  cases body with
  | absent => exact balanced_empty
  | block statements =>
    exact Opens.start " " rfl |>.text (balanced_blockText (Statement.balanced_each hparts))
  | expression value => exact Opens.start " = " rfl |>.text hparts.head

theorem FunctionDeclaration.balanced {f : FunctionDeclaration}
    (hwords : AllFree (Part.function f).words)
    (hparts : PartsBalanced (Part.function f).children) : Balanced f.kotlin := by
  obtain ⟨annotations, visibility, inheritance, modifiers, typeParameters, returnType, name,
    parameters, throws, body⟩ := f
  obtain ⟨hparts, hbody⟩ := hparts.split
  obtain ⟨hparts, hparameters⟩ := hparts.split
  obtain ⟨hannotations, htypes⟩ := hparts.split
  obtain ⟨hwords, hthrows⟩ := List.forall_mem_append.mp hwords
  obtain ⟨hname, hreturn⟩ := List.forall_mem_cons.mp hwords
  have hexceptions : ∀ type ∈ throws, AllFree type.words := fun type htype word hword =>
    hthrows word (List.mem_flatMap.mpr ⟨type, htype, hword⟩)
  have hhead := balanced_annotatedVisibility annotations visibility
    (AnnotationUse.balanced_each hannotations)
  have hkeywords : Balanced (endEach "" (modifiers.map (·.keyword))) :=
    (AllBalanced.map fun modifier _ => modifier.balanced).endEach balanced_empty
  have hlist : Balanced (if typeParameters.isEmpty then ""
      else angleList (TypeParameter.kotlinEach typeParameters) ++ " ") :=
    balanced_empty.ite ((balanced_angleList (TypeParameter.balanced_each htypes)).mark " " rfl)
  have hstrict : Balanced (onlyIf (modifiers.contains .strictfp) "@Strictfp\n") :=
    .onlyIf _ fun _ => rfl
  have hlocked : Balanced (onlyIf (modifiers.contains .synchronized) "@Synchronized\n") :=
    .onlyIf _ fun _ => rfl
  have hmarks := (((((balanced_throwsLine hexceptions).append hstrict).append hlocked).append
    hhead).append (balanced_inheritanceMark inheritance)).append hkeywords
  have htext {result : String} (hresult : Balanced result) :=
    hmarks.mark "fun " rfl |>.text hlist |>.text hname.balanced |>.mark "(" rfl
      |>.text (Parameter.balanced_each hparameters .value).commas |>.mark ")" rfl
      |>.text hresult |>.text (TypeParameter.balanced_where htypes) |>.text hbody.head
  cases returnType with
  | none => exact htext balanced_empty
  | some type =>
    have htype : AllFree type.words := by simpa using hreturn
    exact htext (Opens.start ": " rfl |>.text (ReturnType.balanced htype))

theorem PropertyDeclaration.balanced {p : PropertyDeclaration}
    (hwords : AllFree (Part.properties p).words)
    (hparts : PartsBalanced (Part.properties p).children) : Balanced p.kotlin := by
  obtain ⟨annotations, visibility, inheritance, modifiers, type, properties⟩ := p
  obtain ⟨hannotations, hproperties⟩ := hparts.split
  have hhead := balanced_propertyHead annotations visibility inheritance modifiers
    (AnnotationUse.balanced_each hannotations)
  have htexts : AllBalanced (Property.kotlinEach _ type properties) :=
    .each rfl (fun _ _ => rfl) fun property hmem =>
      hproperties.of_map property hmem _ type hhead (balanced_typeMark hwords)
  exact htexts.lines

theorem Property.balanced {p : Property} {head : String} {type : Option TypeRef}
    (hhead : Balanced head) (hmark : Balanced (typeMark type))
    (hwords : AllFree (Part.property p).words)
    (hparts : PartsBalanced (Part.property p).children) : Balanced (p.kotlin head type) := by
  obtain ⟨hparts, hsetter⟩ := hparts.split
  obtain ⟨hparts, hgetter⟩ := hparts.split
  obtain ⟨hvalue, hdelegate⟩ := hparts.split
  have hname := (hwords p.name List.mem_cons_self).balanced
  -- Four optional pieces: one equation for all of them, not sixteen cases.
  rw [Property.kotlin_eq]
  refine (((((hhead.append hname).append hmark).append ?_).append ?_).append ?_).append ?_
  · exact balanced_whenPresent fun value h => Opens.start " = " rfl |>.text (hvalue.of_map value h)
  · exact balanced_whenPresent fun delegate h =>
      Opens.start " by " rfl |>.text (hdelegate.of_map delegate h)
  · exact balanced_whenPresent fun getter h =>
      Opens.start "\n" rfl |>.text (hgetter.of_map getter h).1
  · exact balanced_whenPresent fun setter h =>
      Opens.start "\n" rfl |>.text (hsetter.of_map setter h).2

theorem Accessor.balanced {a : Accessor} (hwords : AllFree (Part.accessor a).words)
    (hparts : PartsBalanced (Part.accessor a).children) :
    Balanced a.kotlinGet ∧ Balanced a.kotlinSet := by
  obtain ⟨annotations, parameter, body⟩ := a
  obtain ⟨hannotations, hbody⟩ := hparts.split
  have hhead : Balanced (endEach " " (AnnotationUse.kotlinEach annotations)) :=
    AnnotationUse.balanced_endEach hannotations fun _ => rfl
  have hname : Balanced (parameter.getD "value") := balanced_getD (fun _ => rfl) hwords
  have hget := hhead.mark "get()" rfl |>.text hbody.head
  have hset := hhead.mark "set(" rfl |>.text hname |>.mark ")" rfl |>.text hbody.head
  cases body with
  | absent => exact ⟨hhead.mark "get" rfl, hhead.mark "set" rfl⟩
  | block statements => exact ⟨hget, hset⟩
  | expression value => exact ⟨hget, hset⟩

theorem Parameter.balanced {p : Parameter} (role : ParameterRole)
    (hwords : AllFree (Part.parameter p).words)
    (hparts : PartsBalanced (Part.parameter p).children) : Balanced (p.kotlin role) := by
  obtain ⟨annotations, isMutable, type, isVararg, name, fallback⟩ := p
  obtain ⟨hannotations, hfallback⟩ := hparts.split
  obtain ⟨hname, htype⟩ := List.forall_mem_cons.mp hwords
  have hhead : Balanced (endEach " " (AnnotationUse.kotlinEach annotations)) :=
    AnnotationUse.balanced_endEach hannotations fun _ => rfl
  have hvararg : Balanced (onlyIf isVararg "vararg ") := .onlyIf _ fun _ => rfl
  have htext := ((hhead.append hvararg).append (role.balanced isMutable)).append hname.balanced
    |>.mark ": " rfl |>.text (TypeRef.balanced htype)
  cases fallback with
  | none => exact htext.text balanced_empty
  | some value => exact htext.text (Opens.start " = " rfl |>.text hfallback.head)

theorem TypeParameter.balanced {p : TypeParameter} (hwords : AllFree (Part.typeParameter p).words)
    (hparts : PartsBalanced (Part.typeParameter p).children) : Balanced p.kotlin := by
  obtain ⟨annotations, mark, name, constraints⟩ := p
  obtain ⟨hname, hconstraints⟩ := List.forall_mem_cons.mp hwords
  have hhead : Balanced (endEach " " (AnnotationUse.kotlinEach annotations)) :=
    AnnotationUse.balanced_endEach hparts fun _ => rfl
  exact ((hhead.append mark.balanced).append hname.balanced).append
    (balanced_firstBound hconstraints)

theorem Part.isBalanced_of_children {part : Part} (hwords : AllFree part.words)
    (hparts : PartsBalanced part.children) : part.IsBalanced := by
  cases part with
  | expression e => exact Expression.balanced hwords hparts
  | suffix op => exact PostfixOperator.balanced hwords hparts
  | argument a =>
    obtain ⟨name, value⟩ := a
    exact (balanced_nameMark hwords).append hparts.head
  | dictionaryEntry e =>
    obtain ⟨key, value⟩ := e
    exact Balanced.mark hparts.head " to " rfl |>.text hparts.tail.head
  | lambdaParameter p =>
    obtain ⟨annotations, type, name⟩ := p
    obtain ⟨hname, htype⟩ := List.forall_mem_append.mp hwords
    have hhead : Balanced (endEach " " (AnnotationUse.kotlinEach annotations)) :=
      AnnotationUse.balanced_endEach hparts fun _ => rfl
    have hnamed : Balanced (name.getD "_") := balanced_getD (fun _ => rfl) hname
    exact (hhead.append hnamed).append (balanced_typeMark htype)
  | lambdaBody b => exact LambdaBody.balanced hparts
  | branch b =>
    obtain ⟨conditions, body⟩ := b
    obtain ⟨hconditions, hbody⟩ := hparts.split
    have htexts : AllBalanced (Condition.kotlinEach conditions) :=
      .each rfl (fun _ _ => rfl) hconditions.of_map
    exact htexts.commas.mark " -> " rfl |>.text hbody.head.1
  | condition c =>
    obtain ⟨kind, value⟩ := c
    exact kind.balanced_before hparts.head
  | annotationUse a =>
    obtain ⟨name, typeArguments, arguments⟩ := a
    obtain ⟨hname, htypes⟩ := List.forall_mem_cons.mp hwords
    have htexts : AllBalanced (AnnotationArgument.kotlinEach arguments) :=
      .each rfl (fun _ _ => rfl) hparts.of_map
    exact Opens.start "@" rfl |>.text hname.balanced
      |>.text (balanced_angleList (TypeArgument.balanced_each htypes))
      |>.text (balanced_nonemptyList htexts)
  | annotationArgument a => exact AnnotationArgument.balanced hwords hparts
  | statement s =>
    refine ⟨Statement.balanced hwords hparts, ?_⟩
    rintro inner rfl
    exact Statement.balanced_each hparts
  | forVariable v =>
    obtain ⟨type, name, value⟩ := v
    obtain ⟨hname, htype⟩ := List.forall_mem_cons.mp hwords
    exact Opens.start "var " rfl |>.text hname.balanced |>.text (balanced_typeMark htype)
      |>.mark " = " rfl |>.text hparts.head
  | declaration d =>
    cases d with
    | type annotations visibility name kind =>
      obtain ⟨hannotations, hkind⟩ := hparts.split
      have hhead : Balanced (endEach "\n" (AnnotationUse.kotlinEach annotations)) :=
        AnnotationUse.balanced_endEach hannotations fun _ => rfl
      exact (hhead.append visibility.balanced).append
        (hkind.head name (hwords name List.mem_cons_self))
    | function declaration => exact hparts.head
    | property declaration => exact hparts.head
  | typeKind k => exact fun name hname => TypeKind.balanced hname hwords hparts
  | constant c =>
    refine ⟨hwords c.name List.mem_cons_self, ?_⟩
    cases c with
    | implicit name => trivial
    | assigned name value => exact hparts.head
    | shifted name value => exact hparts.head
  | enumEntry e => exact EnumEntry.balanced hwords hparts
  | supertype s => exact Supertype.balanced hwords hparts
  | member m => exact Member.balanced hparts
  | delegation d =>
    obtain ⟨target, arguments⟩ := d
    exact target.balanced.mark "(" rfl |>.text (Argument.balanced_each hparts).commas
      |>.mark ")" rfl
  | function f => exact FunctionDeclaration.balanced hwords hparts
  | functionBody b => exact FunctionBody.balanced hparts
  | properties p => exact PropertyDeclaration.balanced hwords hparts
  | property p => exact fun head type hhead hmark => Property.balanced hhead hmark hwords hparts
  | accessor a => exact Accessor.balanced hwords hparts
  | parameter p => exact fun role => Parameter.balanced role hwords hparts
  | typeParameter p => exact ⟨TypeParameter.balanced hwords hparts, hwords⟩

-- By induction over the parts: the words of a child are words within its parent.
theorem Part.isBalanced {part : Part}
    (hwords : ∀ inner : Part, inner.Within part → AllFree inner.words) : part.IsBalanced := by
  induction part using Part.induction with
  | step part ih =>
    refine isBalanced_of_children (hwords part (.self part)) fun child hchild => ?_
    exact ih child hchild fun inner hinner => hwords inner (.child hchild hinner)

theorem Import.balanced {i : Import} (h : AllFree i.words) : Balanced i.kotlin := by
  obtain ⟨hpath, hnames⟩ := List.forall_mem_cons.mp h
  obtain ⟨hnames, hnewName⟩ := List.forall_mem_append.mp hnames
  have himport := Opens.start "import " rfl |>.text hpath.balanced
  refine Balanced.ite (himport.text (.onlyIf _ fun _ => rfl) |>.text ?_)
    (AllBalanced.map ?_).lines
  · cases hname : i.newName with
    | none => exact balanced_empty
    | some newName =>
      exact Opens.start " as " rfl |>.text (hnewName newName (by simp [hname])).balanced
  · intro name hname
    exact himport.mark "." rfl |>.text (hnames name hname).balanced

theorem SourceFile.bracketFree_of_every {file : SourceFile} (hshebang : AllFree file.shebang.toList)
    (hpackage : AllFree file.package.toList) (himports : ∀ i ∈ file.imports, AllFree i.words)
    (hparts : ∀ declaration ∈ file.declarations,
      (Part.declaration declaration).Every (AllFree ·.words)) :
    ∀ word, file.HasWord word → BracketFree word := by
  intro word hword
  cases hword with
  | shebang h => exact hshebang word (Option.mem_toList.mpr h)
  | package h => exact hpackage word (Option.mem_toList.mpr h)
  | imported hi hword => exact himports _ hi word hword
  | part hpart hword =>
    obtain ⟨declaration, hmem, hwithin⟩ := hpart
    exact (hparts declaration hmem).of_within hwithin word hword

/-- The text of a file is nested if no word of the file and no class name holds a bracket. -/
theorem SourceFile.kotlin_nested (file : SourceFile) (className : Option String)
    (hwords : ∀ word, file.HasWord word → BracketFree word)
    (hclass : ∀ name ∈ className, BracketFree name) :
    Nested (file.kotlin className).toList := by
  apply Balanced.nested
  refine ((((balanced_whenPresent ?_).append (balanced_whenPresent ?_)).append
    (balanced_whenPresent ?_)).append (AllBalanced.endEach (fun _ => rfl) (.map ?_))).append
    (AllBalanced.endEach (fun _ => rfl) (.map ?_))
  · intro shebang h
    exact (hwords shebang (.shebang (Option.mem_toList.mp h))).balanced.mark "\n" rfl
  · intro name h
    exact Opens.start "@file:JvmName(\"" rfl |>.text (hclass name (Option.mem_toList.mp h)).balanced
      |>.mark "\")\n" rfl
  · intro package h
    exact Opens.start "package " rfl
      |>.text (hwords package (.package (Option.mem_toList.mp h))).balanced |>.mark "\n\n" rfl
  · intro i hi
    exact Import.balanced fun word hword => hwords word (.imported hi hword)
  · intro declaration hmem
    have hpart : (Part.declaration declaration).IsBalanced :=
      Part.isBalanced fun inner hinner word hword =>
        hwords word (.part ⟨declaration, hmem, hinner⟩ hword)
    exact Opens.start "\n" rfl |>.text hpart

/-- A file with all three kinds of brackets, one inside the other. -/
def greetingFile : SourceFile where
  shebang := some "#!/usr/bin/env quova"
  package := some "demo"
  imports := [.standardLibrary]
  declarations :=
    [.function ⟨[], .publicAccess, none, [], [], some .void, "main",
      [⟨[], false, ⟨.user ⟨"String", []⟩, 1, false⟩, false, "args", none⟩], [],
      .block [.expression (.suffixed
        (.suffixed (.identifier "greetings") (.call .dot (.named "forEach")))
        (.invocation [] [.positional (.thunk (.suffixed (.identifier "println") (.invocation []
          [.positional (.suffixed (.identifier "args") (.indexing [.integer "0"]))])))]))]⟩]

theorem greetingFile_nested :
    (∀ word, greetingFile.HasWord word → BracketFree word) ∧
      greetingFile.kotlin (some "Main") =
        "#!/usr/bin/env quova\n@file:JvmName(\"Main\")\npackage demo\n\nimport quova.*\n\n" ++
          "public fun main(args: Array<String>): Unit \x7b\n" ++
          "greetings.forEach \x7b println(args[0]) \x7d\n\x7d\n" ∧
      Nested (greetingFile.kotlin (some "Main")).toList := by
  have hwords : ∀ word, greetingFile.HasWord word → BracketFree word := by
    apply SourceFile.bracketFree_of_every
    · decide +kernel
    · decide +kernel
    · decide +kernel
    · repeat' first
        | exact List.forall_mem_nil _
        | refine List.forall_mem_cons.mpr ⟨?_, ?_⟩
        | refine .intro (by decide +kernel) ?_
  refine ⟨hwords, by decide +kernel, ?_⟩
  exact SourceFile.kotlin_nested greetingFile (some "Main") hwords (by decide +kernel)

end QuovaKotlin.Ast

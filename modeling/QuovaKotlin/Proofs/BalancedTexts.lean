import QuovaKotlin.Kotlin.File
import QuovaKotlin.Proofs.Brackets
import QuovaKotlin.Proofs.Words

/-!
# Balanced texts around the syntax trees

The printers of types and operators, and the functions that lay out texts which are already
rendered. Each of them puts balanced texts together to a balanced text; a word between them must be
free of brackets.
-/

set_option autoImplicit false

namespace QuovaKotlin.Ast

open Text

theorem PrimitiveKind.balanced (kind : PrimitiveKind) : Balanced kind.kotlin := by
  cases kind <;> exact fun _ => rfl

theorem PrimitiveKind.balanced_arrayFactory (kind : PrimitiveKind) :
    Balanced kind.arrayFactory := by
  cases kind <;> exact fun _ => rfl

theorem PrimitiveType.balanced (type : PrimitiveType) : Balanced type.kotlin :=
  type.kind.balanced.append (.onlyIf _ fun _ => rfl)

theorem Variance.balanced (variance : Variance) : Balanced variance.kotlin := by
  cases variance <;> exact fun _ => rfl

theorem balanced_angleList {texts : List String} (h : AllBalanced texts) :
    Balanced (angleList texts) :=
  balanced_empty.ite (Opens.start "<" rfl |>.text h.commas |>.mark ">" rfl)

mutual

theorem TypeRef.balanced : ∀ {type : TypeRef}, AllFree type.words → Balanced type.kotlin
  | ⟨_, dimensions, _⟩, h =>
    have hcore := TypeCore.balanced h
    have hopen : Balanced (copies dimensions "Array<") := .copies _ fun _ => rfl
    have hclose : Balanced (copies dimensions ">") := .copies _ fun _ => rfl
    ((hopen.append (hcore.parens.ite hcore)).append hclose).append (.onlyIf _ fun _ => rfl)

theorem TypeCore.balanced : ∀ {core : TypeCore}, AllFree core.words → Balanced core.kotlin
  | .primitive type, _ => type.balanced
  | .user _, h => UserType.balanced h
  | .function suspend _ _, h =>
    have ⟨hresult, hparameters⟩ := List.forall_mem_append.mp h
    have hsuspend : Balanced (onlyIf suspend "suspend ") := .onlyIf _ fun _ => rfl
    hsuspend.mark "(" rfl |>.text (TypeRef.balanced_each hparameters).commas |>.mark ") -> " rfl
      |>.text (TypeRef.balanced hresult)

theorem UserType.balanced : ∀ {type : UserType}, AllFree type.words → Balanced type.kotlin
  | ⟨_, _⟩, h =>
    have ⟨hname, harguments⟩ := List.forall_mem_cons.mp h
    hname.balanced.append (balanced_angleList (TypeArgument.balanced_each harguments))

theorem TypeArgument.balanced :
    ∀ {argument : TypeArgument}, AllFree argument.words → Balanced argument.kotlin
  | .wildcard, _ => fun _ => rfl
  | .concrete none _, h => TypeRef.balanced h
  | .concrete (some variance) _, h =>
    variance.balanced.mark " " rfl |>.text (TypeRef.balanced h)

theorem TypeRef.balanced_each :
    ∀ {types : List TypeRef}, AllFree (TypeRef.wordsEach types) →
      AllBalanced (TypeRef.kotlinEach types)
  | [], _ => .nil
  | _ :: _, h =>
    have ⟨htype, htypes⟩ := List.forall_mem_append.mp h
    .cons (TypeRef.balanced htype) (TypeRef.balanced_each htypes)

theorem TypeArgument.balanced_each :
    ∀ {arguments : List TypeArgument}, AllFree (TypeArgument.wordsEach arguments) →
      AllBalanced (TypeArgument.kotlinEach arguments)
  | [], _ => .nil
  | _ :: _, h =>
    have ⟨hargument, harguments⟩ := List.forall_mem_append.mp h
    .cons (TypeArgument.balanced hargument) (TypeArgument.balanced_each harguments)

end

theorem ReturnType.balanced {type : ReturnType} (h : AllFree type.words) :
    Balanced type.kotlin := by
  cases type with
  | type t => exact TypeRef.balanced h
  | void => exact fun _ => rfl

theorem balanced_typeMark {type : Option TypeRef} (h : AllFree (type.toList.flatMap (·.words))) :
    Balanced (typeMark type) := by
  cases type with
  | none => exact balanced_empty
  | some type =>
    have htype : AllFree type.words := by simpa using h
    exact Opens.start ": " rfl |>.text (TypeRef.balanced htype)

theorem LoopVariable.balanced {item : LoopVariable} (h : AllFree item.words) :
    Balanced item.kotlin := by
  obtain ⟨hname, htype⟩ := List.forall_mem_cons.mp h
  exact hname.balanced.append (balanced_typeMark htype)

theorem allFree_of_mem_wordsEach {types : List TypeRef} (h : AllFree (TypeRef.wordsEach types)) :
    ∀ type ∈ types, AllFree type.words := by
  induction types with
  | nil => exact List.forall_mem_nil _
  | cons type types ih =>
    obtain ⟨htype, htypes⟩ := List.forall_mem_append.mp h
    exact List.forall_mem_cons.mpr ⟨htype, ih htypes⟩

theorem balanced_firstBound {constraints : List TypeRef}
    (h : AllFree (TypeRef.wordsEach constraints)) : Balanced (firstBound constraints) := by
  cases constraints with
  | nil => exact balanced_empty
  | cons bound bounds =>
    have hbound := allFree_of_mem_wordsEach h bound List.mem_cons_self
    exact Opens.start " : " rfl |>.text (TypeRef.balanced hbound)

theorem balanced_whereClause {parameters : List TypeParameter}
    (h : ∀ parameter ∈ parameters, AllFree (Part.typeParameter parameter).words) :
    Balanced (whereClause (TypeParameter.bounds parameters)) := by
  have hbounds : AllBalanced (laterBounds (TypeParameter.bounds parameters)) := by
    intro text htext
    simp only [laterBounds, TypeParameter.bounds, List.mem_flatMap, List.mem_map] at htext
    obtain ⟨_, ⟨parameter, hparameter, rfl⟩, bound, hbound, rfl⟩ := htext
    obtain ⟨hname, hconstraints⟩ := List.forall_mem_cons.mp (h parameter hparameter)
    have hwords := allFree_of_mem_wordsEach hconstraints bound (List.mem_of_mem_drop hbound)
    exact hname.balanced.mark " : " rfl |>.text (TypeRef.balanced hwords)
  exact balanced_empty.ite (Opens.start " where " rfl |>.text hbounds.commas)

theorem BinaryOperator.balanced (operator : BinaryOperator) : Balanced operator.symbol := by
  cases operator with
  | product op | sum op | check op | shift op | comparison op | equality op =>
    cases op <;> exact fun _ => rfl
  | range | elvis | bitAnd | bitXor | bitOr | spaceship | conjunction | disjunction =>
    exact fun _ => rfl

theorem PrefixOperator.balanced (operator : PrefixOperator) : Balanced operator.symbol := by
  cases operator <;> exact fun _ => rfl

theorem CallKind.balanced (kind : CallKind) : Balanced kind.symbol := by
  cases kind <;> exact fun _ => rfl

theorem AssignmentOperator.balanced_native {operator : AssignmentOperator} {symbol : String}
    (h : operator.native? = some symbol) : Balanced symbol := by
  cases operator <;> cases h <;> exact fun _ => rfl

theorem AssignmentOperator.balanced_combining (operator : AssignmentOperator) :
    Balanced operator.combining := by
  cases operator <;> exact fun _ => rfl

theorem Rendered.balanced_under {r : Rendered} (h : Balanced r.text) (enclosing : Int) :
    Balanced (r.under enclosing) :=
  h.parens.ite h

theorem Rendered.balanced_join {left right : Rendered} (operator : BinaryOperator)
    (hleft : Balanced left.text) (hright : Balanced right.text) :
    Balanced (Rendered.join operator left right).text := by
  have hl := fun enclosing => left.balanced_under hleft enclosing
  have hr := fun enclosing => right.balanced_under hright enclosing
  unfold Rendered.join
  dsimp only
  split
  · exact (hl _).mark ".." rfl |>.text (hr _)
  · exact (hl _).mark ".compareTo(" rfl |>.text hright |>.mark ")" rfl
  · exact (hl _).mark " " rfl |>.text operator.balanced |>.mark " " rfl |>.text (hr _)

theorem PrefixOperator.balanced_before {operand : Rendered} (operator : PrefixOperator)
    (isPrefixed : Bool) (h : Balanced operand.text) :
    Balanced (operator.before operand isPrefixed) := by
  have hplain : Balanced (operator.symbol ++ operand.under Priority.prefixed) :=
    operator.balanced.append (operand.balanced_under h _)
  have hparens : Balanced (operator.symbol ++ "(" ++ operand.text ++ ")") :=
    operator.balanced.mark "(" rfl |>.text h |>.mark ")" rfl
  unfold PrefixOperator.before
  split
  · exact Opens.start "quova.internal.bitComplement(" rfl |>.text h |>.mark ")" rfl
  · exact hparens.ite hplain
  · exact hparens.ite hplain
  · exact hplain

theorem balanced_assignedValue : Balanced assignedValue :=
  fun _ => rfl

theorem AssignmentOperator.balanced_asValue {target : String} {value : Rendered}
    (operator : AssignmentOperator) (htarget : Balanced target) (hvalue : Balanced value.text) :
    Balanced (operator.asValue target value) := by
  have hunder := value.balanced_under hvalue Priority.suffixed
  unfold AssignmentOperator.asValue
  split
  · next symbol hsymbol =>
    exact hunder.mark ".also \x7b " rfl |>.text balanced_assignedValue |>.mark " -> " rfl
      |>.text htarget |>.mark " " rfl |>.text (balanced_native hsymbol) |>.mark " " rfl
      |>.text balanced_assignedValue |>.mark " \x7d" rfl
  · exact Opens.start "(" rfl |>.text htarget |>.mark " " rfl |>.text operator.balanced_combining
      |>.mark " " rfl |>.text hunder |>.mark ").also \x7b " rfl |>.text balanced_assignedValue
      |>.mark " -> " rfl |>.text htarget |>.mark " = " rfl |>.text balanced_assignedValue
      |>.mark " \x7d" rfl

theorem AssignmentOperator.balanced_asStatement {target : String} {value : Rendered}
    (operator : AssignmentOperator) (htarget : Balanced target) (hvalue : Balanced value.text) :
    Balanced (operator.asStatement target value) := by
  unfold AssignmentOperator.asStatement
  split
  · next symbol hsymbol =>
    exact htarget.mark " " rfl |>.text (balanced_native hsymbol) |>.mark " " rfl |>.text hvalue
  · exact htarget.mark " = " rfl |>.text htarget |>.mark " " rfl
      |>.text operator.balanced_combining |>.mark " " rfl
      |>.text (value.balanced_under hvalue _)

theorem balanced_toString (n : Nat) : Balanced (toString n) := by
  apply BracketFree.balanced
  intro c hc
  rw [Nat.toString_eq_ofList_toDigits, String.toList_ofList] at hc
  have hdigit : c.isDigit = true := Nat.isDigit_of_mem_toDigits (by decide) (by decide) hc
  apply decide_eq_false
  intro hbracket
  simp only [List.mem_cons, List.not_mem_nil, or_false] at hbracket
  rcases hbracket with rfl | rfl | rfl | rfl | rfl | rfl <;> cases hdigit

/-- The value that stands in an entry has a balanced text. -/
def ConstantEntry.ValueBalanced : ConstantEntry Rendered → Prop
  | implicit _ => True
  | assigned _ value | shifted _ value => Balanced value.text

theorem Rendered.balanced_next {last : Option Rendered} (offset : Nat)
    (hlast : ∀ value ∈ last, Balanced value.text) :
    Balanced (Rendered.counting.next last offset).text := by
  cases last with
  | none => exact balanced_toString offset
  | some value => exact balanced_join _ (hlast value rfl) (balanced_toString offset)

theorem Rendered.balanced_bit {value : Rendered} (h : Balanced value.text) :
    Balanced (Rendered.counting.bit value).text :=
  balanced_join _ (balanced_toString 1) h

-- The last explicit value stays in use behind its entry, so its text is part of the invariant.
theorem Rendered.balanced_valuesFrom {entries : List (ConstantEntry Rendered)}
    {last : Option Rendered} (bitfield : Bool) (offset : Nat)
    (hlast : ∀ value ∈ last, Balanced value.text) (h : ∀ entry ∈ entries, entry.ValueBalanced) :
    ∀ value ∈ Rendered.counting.valuesFrom bitfield last offset entries, Balanced value.text := by
  induction entries generalizing last offset with
  | nil => exact List.forall_mem_nil _
  | cons entry entries ih =>
    obtain ⟨hentry, hentries⟩ := List.forall_mem_cons.mp h
    cases entry with
    | implicit name =>
      have hnext := balanced_next offset hlast
      refine List.forall_mem_cons.mpr ⟨?_, ih (offset + 1) hlast hentries⟩
      split
      · exact balanced_bit hnext
      · exact hnext
    | assigned name value =>
      have hvalue : ∀ v ∈ some value, Balanced v.text := by
        rintro _ ⟨⟩
        exact hentry
      exact List.forall_mem_cons.mpr ⟨hentry, ih 1 hvalue hentries⟩
    | shifted name value =>
      have hvalue : ∀ v ∈ some value, Balanced v.text := by
        rintro _ ⟨⟩
        exact hentry
      exact List.forall_mem_cons.mpr ⟨balanced_bit hentry, ih 1 hvalue hentries⟩

theorem allBalanced_constantLines {entries : List (ConstantEntry Rendered)} (type : PrimitiveType)
    (bitfield : Bool) (hnames : ∀ entry ∈ entries, BracketFree entry.name)
    (h : ∀ entry ∈ entries, entry.ValueBalanced) :
    AllBalanced (constantLines type bitfield entries) := by
  refine .map fun (entry, value) hmem => ?_
  obtain ⟨hentry, hvalue⟩ := List.of_mem_zip hmem
  have hnone : ∀ value ∈ (none : Option Rendered), Balanced value.text := nofun
  exact Opens.start "const val " rfl |>.text (hnames entry hentry).balanced |>.mark ": " rfl
    |>.text type.balanced |>.mark " = " rfl
    |>.text (Rendered.balanced_valuesFrom bitfield 0 hnone h value hvalue)

theorem Literal.balanced {literal : Literal} (h : AllFree literal.words) :
    Balanced literal.kotlin := by
  cases literal with
  | string text | multilineString text | integer text | long text | real text | char text =>
    exact (h text List.mem_cons_self).balanced
  | super type =>
    cases type with
    | none => exact fun _ => rfl
    | some type => exact Opens.start "super<" rfl |>.text (UserType.balanced h) |>.mark ">" rfl
  | boolean value => cases value <;> exact fun _ => rfl
  | this | null | void => exact fun _ => rfl

theorem CallTarget.balanced {target : CallTarget} {kind : CallKind}
    (h : AllFree (PostfixOperator.call kind target).words) : Balanced target.kotlin := by
  cases target with
  | named name => exact (h name List.mem_cons_self).balanced
  | classObject => exact fun _ => rfl

theorem balanced_nameMark {name : Option String} (h : AllFree name.toList) :
    Balanced (nameMark name) := by
  cases name with
  | none => exact balanced_empty
  | some name => exact (h name List.mem_cons_self).balanced.mark " = " rfl

theorem balanced_whenPresent {α : Type} {value : Option α} {f : α → String}
    (h : ∀ a ∈ value.toList, Balanced (f a)) : Balanced (whenPresent value f) := by
  cases value with
  | none => exact balanced_empty
  | some a => exact h a List.mem_cons_self

theorem balanced_getD {name : Option String} {standard : String} (hstandard : Balanced standard)
    (h : AllFree name.toList) : Balanced (name.getD standard) := by
  cases name with
  | none => exact hstandard
  | some name => exact (h name List.mem_cons_self).balanced

theorem balanced_jumpText {keyword : String} {label : Option String} (hkeyword : Balanced keyword)
    (h : AllFree label.toList) : Balanced (jumpText keyword label) := by
  cases label with
  | none => exact hkeyword
  | some label => exact hkeyword.mark "@" rfl |>.text (h label List.mem_cons_self).balanced

theorem ConditionKind.balanced_before {value : String} (kind : ConditionKind)
    (h : Balanced value) : Balanced (kind.before value) := by
  cases kind with
  | case => exact h
  | inside negated =>
    have hnot : Balanced (onlyIf negated "!") := .onlyIf _ fun _ => rfl
    exact hnot.mark "in " rfl |>.text h
  | ofType negated =>
    have hnot : Balanced (onlyIf negated "!") := .onlyIf _ fun _ => rfl
    exact hnot.mark "is " rfl |>.text h

theorem Visibility.balanced (visibility : Visibility) : Balanced visibility.kotlin := by
  cases visibility <;> exact fun _ => rfl

theorem ClassModifiers.balanced (modifiers : ClassModifiers) : Balanced modifiers.kotlin := by
  refine Balanced.append (.ite (fun _ => rfl) ?_) (.onlyIf _ fun _ => rfl)
  split <;> exact fun _ => rfl

theorem balanced_inheritanceMark (inheritance : Option Inheritance) :
    Balanced (inheritanceMark inheritance) := by
  rcases inheritance with _ | _ | _ <;> exact fun _ => rfl

theorem FunctionModifier.balanced (modifier : FunctionModifier) : Balanced modifier.keyword := by
  cases modifier <;> exact fun _ => rfl

theorem TypeParameterMark.balanced (mark : TypeParameterMark) : Balanced mark.kotlin := by
  cases mark with
  | reified isPresent => exact .onlyIf _ fun _ => rfl
  | variance variance =>
    cases variance with
    | none => exact balanced_empty
    | some v => exact v.balanced.mark " " rfl

theorem DelegationTarget.balanced (target : DelegationTarget) : Balanced target.kotlin := by
  cases target <;> exact fun _ => rfl

theorem ParameterRole.balanced (role : ParameterRole) (isMutable : Bool) :
    Balanced (role.keyword isMutable) := by
  cases role <;> cases isMutable <;> exact fun _ => rfl

theorem balanced_arrayFactory {element : TypeRef} (h : AllFree element.words) :
    Balanced (arrayFactory element) := by
  unfold arrayFactory
  split
  · exact PrimitiveKind.balanced_arrayFactory _
  · exact Opens.start "arrayOf<" rfl |>.text (TypeRef.balanced h) |>.mark ">" rfl

section

variable {texts : List String}

theorem balanced_nonemptyList (h : AllBalanced texts) : Balanced (nonemptyList texts) :=
  balanced_empty.ite h.commas.parens

theorem balanced_supertypeList (h : AllBalanced texts) : Balanced (supertypeList texts) :=
  balanced_empty.ite (Opens.start " : " rfl |>.text h.commas)

theorem balanced_blockText (h : AllBalanced texts) : Balanced (blockText texts) :=
  .ite (fun _ => rfl)
    (Opens.start "\x7b\n" rfl |>.text (h.endEach fun _ => rfl) |>.mark "\x7d" rfl)

theorem balanced_callList (arguments : List Argument) (h : AllBalanced texts) :
    Balanced (callList arguments texts) := by
  unfold callList
  split
  · next last text _ htext =>
    have hothers : AllBalanced texts.dropLast :=
      fun text hmem => h text (List.dropLast_subset texts hmem)
    have hlast : Balanced text := h text (List.mem_of_getLast? htext)
    have hlist := hothers.commas.parens.onlyIf (! texts.dropLast.isEmpty)
    exact Balanced.ite (hlist.mark " " rfl |>.text hlast) h.commas.parens
  · exact h.commas.parens

theorem balanced_memberList {statics : List String} (h : AllBalanced texts)
    (hstatics : AllBalanced statics) : Balanced (memberList texts statics) := by
  have hbreak : Balanced (onlyIf (! texts.isEmpty) "\n") := .onlyIf _ fun _ => rfl
  refine h.lines.append (balanced_empty.ite ?_)
  exact hbreak.mark "companion object \x7b\n" rfl |>.text hstatics.lines |>.mark "\n\x7d" rfl

theorem balanced_memberBody {statics : List String} (h : AllBalanced texts)
    (hstatics : AllBalanced statics) : Balanced (memberBody texts statics) :=
  balanced_empty.ite
    (Opens.start " \x7b\n" rfl |>.text (balanced_memberList h hstatics) |>.mark "\n\x7d" rfl)

theorem balanced_annotatedVisibility (annotations : List AnnotationUse) (visibility : Visibility)
    (h : AllBalanced texts) : Balanced (annotatedVisibility annotations texts visibility) := by
  refine ((AllBalanced.endEach (fun _ => rfl) (.map fun (use, text) hmem => ?_)).append
    visibility.balanced).append (.onlyIf _ fun _ => rfl)
  exact h text (List.of_mem_zip (List.mem_filter.mp hmem).1).2

theorem balanced_propertyHead (annotations : List AnnotationUse) (visibility : Visibility)
    (inheritance : Option Inheritance) (modifiers : List PropertyModifier)
    (h : AllBalanced texts) :
    Balanced (propertyHead annotations texts visibility inheritance modifiers) := by
  refine ((((Balanced.append ?_ ?_).append ?_).append ?_).append ?_).append ?_
  · exact .onlyIf _ fun _ => rfl
  · exact .onlyIf _ fun _ => rfl
  · exact balanced_annotatedVisibility annotations visibility h
  · exact .onlyIf _ fun _ => rfl
  · exact .onlyIf _ fun _ => rfl
  · exact .ite (fun _ => rfl) fun _ => rfl

end

theorem balanced_throwsLine {exceptions : List UserType}
    (h : ∀ type ∈ exceptions, AllFree type.words) : Balanced (throwsLine exceptions) := by
  have hclasses : AllBalanced (exceptions.map fun type => type.kotlin ++ "::class") :=
    .map fun type htype => (UserType.balanced (h type htype)).mark "::class" rfl
  exact balanced_empty.ite (Opens.start "@Throws(" rfl |>.text hclasses.commas |>.mark ")\n" rfl)

end QuovaKotlin.Ast

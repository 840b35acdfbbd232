import QuovaKotlin.Module.Reading
import QuovaKotlin.Proofs.Precedence
import QuovaKotlin.Proofs.ParseTrees
import QuovaKotlin.Proofs.Reading.Inversion
import QuovaKotlin.Reading.File

/-!
# Where unsupported constructs stand

A reader that meets an unsupported construct names the span of a node. `Blames` says which spans a
reader may name, whatever node of a tree it is given. Every reader hands on what the readers of its
parts name, and only the elements of an initializer are refused by a reader of their own. So a file
that cannot be read names an initializer list with a dictionary entry in it.
-/

set_option autoImplicit false

namespace QuovaKotlin.Reading

open Ast Peg
open Peg.ParseTree (Within)
open Precedence (Grouping)
open Source (Rule)

section

variable {α β τ : Type} {e : ReadingError}

theorem map_eq_error {f : α → β} {r : Read α} (h : f <$> r = .error e) : r = .error e := by
  cases r with
  | error e' =>
    cases h
    rfl
  | ok a => cases h

theorem bind_pure_eq_error {f : α → β} {r : Read α} (h : (r >>= fun a => pure (f a)) = .error e) :
    r = .error e := by
  cases r with
  | error e' =>
    cases h
    rfl
  | ok a => cases h

theorem bind_eq_error {f : α → Read β} {r : Read α} (h : r >>= f = .error e) :
    r = .error e ∨ ∃ a, r = .ok a ∧ f a = .error e := by
  cases r with
  | error e' =>
    cases h
    exact .inl rfl
  | ok a => exact .inr ⟨a, rfl, h⟩

theorem mapM_eq_error {read : τ → Read α} {ts : List τ} (h : ts.mapM read = .error e) :
    ∃ t ∈ ts, read t = .error e := by
  induction ts with
  | nil => cases h
  | cons t ts ih =>
    rw [List.mapM_cons] at h
    rcases bind_eq_error h with h | ⟨x, -, h⟩
    · exact ⟨t, List.mem_cons_self, h⟩
    rcases bind_eq_error h with h | ⟨xs, -, h⟩
    · obtain ⟨t', ht', h⟩ := ih h
      exact ⟨t', List.mem_cons_of_mem t ht', h⟩
    · cases h

end

/-- When the reader meets an unsupported construct in a node of the tree, it names a span with the
property `blamed`. -/
def Blames {ρ α : Type} (blamed : Span → Prop) (tree : ParseTree ρ)
    (read : ParseTree ρ → Read α) : Prop :=
  ∀ ⦃node : ParseTree ρ⦄, Within node tree → ∀ ⦃construct : Unsupported⦄ ⦃span : Span⦄,
    read node = .error (.unsupported construct span) → blamed span

namespace Blames

variable {ρ α β : Type} {blamed : Span → Prop} {tree : ParseTree ρ}
  {read : ParseTree ρ → Read α}

theorem pure {value : ParseTree ρ → α} :
    Blames blamed tree fun node => Pure.pure (value node) := by
  intro node _ construct span h
  cases h

theorem map {f : α → β} (h : Blames blamed tree read) :
    Blames blamed tree fun node => f <$> read node :=
  fun _ hnode _ _ herror => h hnode (map_eq_error herror)

theorem bind {next : ParseTree ρ → α → Read β} (h : Blames blamed tree read)
    (hnext : ∀ x, Blames blamed tree (next · x)) :
    Blames blamed tree fun node => read node >>= next node := by
  intro node hnode construct span herror
  rcases bind_eq_error herror with herror | ⟨x, -, herror⟩
  · exact h hnode herror
  · exact hnext x hnode herror

theorem ite {condition : ParseTree ρ → Bool} {other : ParseTree ρ → Read α}
    (h : Blames blamed tree read) (hother : Blames blamed tree other) :
    Blames blamed tree fun node => if condition node then read node else other node := by
  intro node hnode construct span herror
  dsimp only at herror
  split at herror
  · exact h hnode herror
  · exact hother hnode herror

section Children

variable [DecidableEq ρ] {rule : ρ}

theorem each (h : Blames blamed tree read) : Blames blamed tree (Reading.each · rule read) := by
  intro node hnode construct span herror
  obtain ⟨child, hchild, herror⟩ := mapM_eq_error herror
  exact h (.of_mem (List.mem_filter.mp hchild).1 hnode) herror

theorem atMostOne (h : Blames blamed tree read) :
    Blames blamed tree (Reading.atMostOne · rule read) := by
  intro node hnode construct span herror
  dsimp only [Reading.atMostOne] at herror
  split at herror
  · next child hchild =>
    exact h (.of_mem (mem_of_child? hchild).1 hnode) (map_eq_error herror)
  · cases herror

theorem listUnder {read : ParseTree ρ → Read (List α)} (h : Blames blamed tree read) :
    Blames blamed tree (Reading.listUnder · rule read) :=
  h.atMostOne.bind fun _ => pure

end Children

variable [Labeled ρ]

theorem missing {what : String} :
    Blames blamed tree fun node => (Reading.missing node what : Read α) := by
  intro node _ construct span h
  cases h

theorem unexpected : Blames blamed tree fun node => (Reading.unexpected node : Read α) := by
  intro node _ construct span h
  cases h

theorem meaning {table : String → Option α} : Blames blamed tree (Reading.meaning table) := by
  intro node hnode construct span herror
  unfold Reading.meaning at herror
  split at herror
  · cases herror
  · exact unexpected hnode herror

/-- A reader that goes on with the first child. -/
theorem first {next : ParseTree ρ → ParseTree ρ → Read α}
    (h : ∀ ⦃node⦄, Within node tree → Blames blamed tree (next node)) :
    Blames blamed tree fun node => first node >>= next node := by
  intro node hnode construct span herror
  rcases bind_eq_error herror with herror | ⟨child, hchild, herror⟩
  · unfold Reading.first at herror
    split at herror
    · cases herror
    · exact missing hnode herror
  · exact h hnode (.of_mem (of_first hchild) hnode) herror

variable [DecidableEq ρ] {rule : ρ}

theorem child : Blames blamed tree (Reading.required · rule) := by
  intro node hnode construct span herror
  dsimp only [Reading.required] at herror
  split at herror
  · cases herror
  · exact missing hnode herror

/-- A reader that goes on with a child of the given rule. -/
theorem required {next : ParseTree ρ → ParseTree ρ → Read α}
    (h : ∀ ⦃node⦄, Within node tree → Blames blamed tree (next node)) :
    Blames blamed tree fun node => required node rule >>= next node := by
  intro node hnode construct span herror
  rcases bind_eq_error herror with herror | ⟨child, hchild, herror⟩
  · exact Blames.child hnode herror
  · exact h hnode (.of_mem (of_required hchild).1 hnode) herror

theorem one (h : Blames blamed tree read) : Blames blamed tree (Reading.one · rule read) :=
  required fun _ _ => h

theorem textOf : Blames blamed tree (Reading.textOf · rule) :=
  one pure

/-- A reader that asks for a child first. -/
theorem onChild {tree : Node} {rule : Rule} {found : Node → Node → Read α} {read : Node → Read α}
    (hfound : ∀ ⦃node⦄, Within node tree → Blames blamed tree (found node))
    (h : Blames blamed tree read) :
    Blames blamed tree fun node =>
      match node.child? rule with
      | some child => found node child
      | none => read node := by
  intro node hnode construct span herror
  dsimp only at herror
  split at herror
  · next child hchild => exact hfound hnode (.of_mem (mem_of_child? hchild).1 hnode) herror
  · exact h hnode herror

end Blames

section Types

variable {blamed : Span → Prop} {tree : Node} {inner : TypeReader}

theorem blames_primitiveType : Blames blamed tree readPrimitiveType :=
  Blames.meaning.one.bind fun _ => .pure

section

variable (hinner : Blames blamed tree inner)

include hinner

theorem blames_typeArgument : Blames blamed tree (readTypeArgument inner) :=
  .ite .pure (Blames.meaning.atMostOne.bind fun _ => hinner.one.bind fun _ => .pure)

theorem blames_typeArgumentsWith : Blames blamed tree (readTypeArgumentsWith inner) :=
  (blames_typeArgument hinner).each

theorem blames_userTypeWith : Blames blamed tree (readUserTypeWith inner) :=
  (blames_typeArgumentsWith hinner).listUnder.bind fun _ => .bind .textOf fun _ => .pure

theorem blames_functionType : Blames blamed tree (readFunctionType inner) :=
  hinner.each.one.bind fun _ => hinner.one.bind fun _ => .pure

theorem blames_typeCore : Blames blamed tree (readTypeCore inner) := by
  intro node hnode construct span herror
  unfold readTypeCore at herror
  split at herror
  · exact blames_functionType hinner hnode herror
  · exact blames_primitiveType hnode (map_eq_error herror)
  · exact blames_userTypeWith hinner hnode (map_eq_error herror)
  · cases herror

theorem blames_typeWith : Blames blamed tree (readTypeWith inner) :=
  .first fun _ _ => (blames_typeCore hinner).bind fun _ => .pure

end

theorem blames_typeIn (height : Nat) : Blames blamed tree (readTypeIn height) := by
  induction height with
  | zero => exact .missing
  | succ height ih => exact blames_typeWith ih

theorem blames_type : Blames blamed tree readType :=
  fun node hnode _ _ herror => blames_typeIn node.height hnode herror

theorem blames_userType : Blames blamed tree readUserType :=
  blames_userTypeWith blames_type

theorem blames_typeArguments : Blames blamed tree readTypeArguments :=
  blames_typeArgumentsWith blames_type

theorem blames_declaredType : Blames blamed tree readDeclaredType :=
  blames_type.atMostOne.atMostOne.bind fun _ => .pure

end Types

/-- The readers of the parts name spans with the property `blamed`. -/
structure Readers.Blame (blamed : Span → Prop) (tree : Node) (parts : Readers) : Prop where
  expression : Blames blamed tree parts.expression
  statement : Blames blamed tree parts.statement
  declaration : ∀ scope, Blames blamed tree (parts.declaration scope)
  conditions : Blames blamed tree parts.conditions

section

variable {blamed : Span → Prop} {tree : Node} {parts : Readers} (hp : parts.Blame blamed tree)

include hp

theorem blames_arguments : Blames blamed tree (readArguments parts) :=
  Blames.each (hp.expression.one.bind fun _ => .pure)

theorem blames_annotationArgument : Blames blamed tree (readAnnotationArgument parts) := by
  apply Blames.onChild
  · exact fun _ _ => hp.expression.each.map
  · exact fun _ hnode _ _ herror => hp.expression.one hnode (map_eq_error herror)

theorem blames_annotations : Blames blamed tree (readAnnotations parts) :=
  Blames.each (blames_typeArguments.listUnder.bind fun _ =>
    (blames_annotationArgument hp).each.bind fun _ => .bind .textOf fun _ => .pure)

theorem blames_parameter : Blames blamed tree (readParameter parts) :=
  hp.expression.atMostOne.bind fun _ => (blames_annotations hp).bind fun _ =>
    blames_type.one.bind fun _ => .bind .textOf fun _ => .pure

theorem blames_parameters : Blames blamed tree (readParameters parts) :=
  (blames_parameter hp).each

theorem blames_typeParameter {mark : Node → Read TypeParameterMark}
    (hmark : Blames blamed tree mark) : Blames blamed tree (readTypeParameter parts mark) :=
  hmark.bind fun _ => (blames_annotations hp).bind fun _ => .bind .textOf fun _ =>
    blames_type.each.bind fun _ => .pure

theorem blames_typeParameters : Blames blamed tree (readTypeParameters parts) :=
  Blames.listUnder (blames_typeParameter hp .pure).each

theorem blames_variantTypeParameters : Blames blamed tree (readVariantTypeParameters parts) :=
  Blames.listUnder (blames_typeParameter hp Blames.meaning.atMostOne.map).each

theorem blames_block : Blames blamed tree (readBlock parts) :=
  hp.statement.each

theorem blames_body : Blames blamed tree (readBody parts) := by
  refine .first fun _ _ body hbody construct span herror => ?_
  split at herror
  · exact blames_block hp hbody (map_eq_error herror)
  · exact hp.statement hbody herror
  · cases herror
  · cases herror

theorem blames_loopHeader : Blames blamed tree (readLoopHeader parts) :=
  blames_declaredType.bind fun _ => .bind .textOf fun _ =>
    hp.expression.one.bind fun _ => .pure

theorem blames_lambdaBody : Blames blamed tree (readLambdaBody parts) :=
  hp.expression.atMostOne.bind fun _ => (blames_block hp).bind fun _ => .pure

theorem blames_lambdaParameter : Blames blamed tree (readLambdaParameter parts) :=
  blames_declaredType.bind fun _ => .bind .textOf fun _ =>
    (blames_annotations hp).bind fun _ => .pure

theorem blames_lambda : Blames blamed tree (readLambda parts) := by
  refine (blames_lambdaParameter hp).each.bind fun _ => ?_
  apply Blames.onChild
  · exact fun _ _ => (blames_lambdaBody hp).map
  · exact hp.expression.one.map

theorem blames_dictionaryEntry : Blames blamed tree (readDictionaryEntry parts) := by
  intro node hnode construct span herror
  have hmem : ∀ child ∈ node.childrenOf .expression, Within child tree :=
    fun child hchild => .of_mem (List.mem_filter.mp hchild).1 hnode
  unfold readDictionaryEntry at herror
  split at herror
  · next key value others hchildren =>
    rw [hchildren] at hmem
    rcases bind_eq_error herror with herror | ⟨_, -, herror⟩
    · exact hp.expression (hmem key List.mem_cons_self) herror
    rcases bind_eq_error herror with herror | ⟨_, -, herror⟩
    · exact hp.expression (hmem value (List.mem_cons_of_mem key List.mem_cons_self)) herror
    · cases herror
  · cases herror

theorem blames_initializer : Blames blamed tree (readInitializer parts) :=
  .ite (blames_dictionaryEntry hp).each.map (blames_arguments hp).map

omit hp in
theorem blames_conditionKind : Blames blamed tree readConditionKind := by
  refine .first fun _ _ kind hkind construct span herror => ?_
  dsimp only at herror
  split at herror <;> cases herror

theorem blames_conditions : Blames blamed tree (readConditions parts) :=
  blames_conditionKind.one.bind fun _ => hp.expression.each.bind fun _ =>
    hp.conditions.listUnder.bind fun _ => .pure

theorem blames_fallback : Blames blamed tree (readFallback parts) :=
  (blames_body hp).one.atMostOne

theorem blames_switch : Blames blamed tree (readSwitch parts) := by
  have hbranch : Blames blamed tree (readSwitchBranch parts) :=
    (blames_conditions hp).one.bind fun _ => (blames_body hp).one.bind fun _ => .pure
  exact hbranch.each.bind fun _ => hp.expression.one.bind fun _ =>
    (blames_fallback hp).bind fun _ => .pure

theorem blames_when : Blames blamed tree (readWhen parts) := by
  have hbranch : Blames blamed tree (readWhenBranch parts) :=
    hp.expression.each.bind fun _ => (blames_body hp).one.bind fun _ => .pure
  exact hbranch.each.bind fun _ => (blames_fallback hp).bind fun _ => .pure

end

/-- The span is that of an initializer list in the tree, and the list holds a dictionary entry. -/
def IsDictionarySpan (tree : Node) (span : Span) : Prop :=
  ∃ list, Within list tree ∧ list.rule = .initializerList ∧ list.has .dictionaryEntry ∧
    list.span = span

section

variable {tree : Node} {parts : Readers} (hp : parts.Blame (IsDictionarySpan tree) tree)

include hp

/-- The one reader that refuses something itself. It names the list that it reads. -/
theorem isDictionarySpan_of_elements {list : Node} (hlist : Within list tree)
    (hrule : list.rule = .initializerList) {construct construct' : Unsupported} {span : Span}
    (herror : readElements parts construct list = .error (.unsupported construct' span)) :
    IsDictionarySpan tree span := by
  rcases bind_eq_error herror with herror | ⟨entries, hentries, herror⟩
  · exact blames_initializer hp hlist herror
  unfold readInitializer at hentries
  split at hentries
  · next hhas =>
    obtain ⟨_, -, rfl⟩ := map_eq_ok hentries
    cases herror
    exact ⟨list, hlist, hrule, hhas, rfl⟩
  · obtain ⟨_, -, rfl⟩ := map_eq_ok hentries
    cases herror

omit hp in
theorem blames_elementType {blamed : Span → Prop} : Blames blamed tree readElementType := by
  apply Blames.onChild
  · exact fun _ _ => Blames.meaning.map
  · exact blames_userType.one.map

theorem blames_constructorArguments :
    Blames (IsDictionarySpan tree) tree (readConstructorArguments parts) := by
  intro node hnode construct span herror
  unfold readConstructorArguments at herror
  split at herror
  · next arguments _ harguments =>
    exact blames_arguments hp (.of_mem (mem_of_child? harguments).1 hnode) herror
  · next list _ hlist =>
    obtain ⟨hmem, hrule⟩ := mem_of_child? hlist
    exact isDictionarySpan_of_elements hp (.of_mem hmem hnode) hrule herror
  · cases herror

theorem blames_constructorInvocation :
    Blames (IsDictionarySpan tree) tree (readConstructorInvocation parts) := by
  refine blames_elementType.bind fun element => hp.expression.one.each.bind fun sizes => ?_
  intro node hnode construct span herror
  split at herror
  · cases herror
  dsimp only at herror
  split at herror
  · exact blames_constructorArguments hp hnode (map_eq_error herror)
  rcases bind_eq_error (bind_pure_eq_error herror) with herror | ⟨list, hlist, herror⟩
  · exact Blames.child hnode herror
  · obtain ⟨hmem, hrule⟩ := of_required hlist
    exact isDictionarySpan_of_elements hp (.of_mem hmem hnode) hrule herror

theorem blames_literal : Blames (IsDictionarySpan tree) tree (readLiteral parts) := by
  intro node hnode construct span herror
  unfold readLiteral at herror
  split at herror
  case h_11 => exact blames_userType.atMostOne hnode (map_eq_error herror)
  case h_12 => exact blames_lambda hp hnode herror
  case h_13 =>
    rcases bind_eq_error herror with herror | ⟨list, -, herror⟩
    · exact blames_initializer hp hnode herror
    · split at herror <;> cases herror
  all_goals cases herror

theorem blames_operand : Blames (IsDictionarySpan tree) tree (readOperand parts) := by
  intro node hnode construct span herror
  unfold readOperand at herror
  split at herror
  · exact Blames.first (fun _ _ => blames_literal hp) hnode herror
  · exact blames_constructorInvocation hp hnode herror
  · exact blames_switch hp hnode herror
  · exact blames_when hp hnode herror
  · exact hp.expression hnode (map_eq_error herror)
  · cases herror
  · cases herror

theorem blames_invocation : Blames (IsDictionarySpan tree) tree (readInvocation parts) :=
  blames_typeArguments.listUnder.bind fun _ => (blames_arguments hp).listUnder.bind fun _ =>
    (blames_lambdaBody hp).atMostOne.bind fun _ => .pure

theorem blames_postfixOperator :
    Blames (IsDictionarySpan tree) tree (readPostfixOperator parts) := by
  refine .first fun _ _ operator hoperator construct span herror => ?_
  split at herror
  · exact Blames.meaning hoperator herror
  · exact blames_invocation hp hoperator herror
  · exact hp.expression.each hoperator (map_eq_error herror)
  · have htarget : Blames (IsDictionarySpan tree) tree readCallTarget :=
      .ite .pure Blames.textOf.map
    rcases bind_eq_error herror with herror | ⟨_, -, herror⟩
    · exact Blames.meaning.one hoperator herror
    · exact htarget hoperator (bind_pure_eq_error herror)
  · cases herror

omit hp in
theorem blames_prefixed (operand : Expression) :
    Blames (IsDictionarySpan tree) tree (readPrefixed · operand) := by
  intro node hnode construct span herror
  dsimp only [readPrefixed] at herror
  split at herror
  · cases herror
  · exact Blames.meaning hnode (bind_pure_eq_error herror)

theorem blames_suffixed (operand : Expression) :
    Blames (IsDictionarySpan tree) tree (readSuffixed parts operand) := by
  intro node hnode construct span herror
  unfold readSuffixed at herror
  split at herror
  · exact blames_type.one hnode (bind_pure_eq_error herror)
  · exact blames_postfixOperator hp hnode (bind_pure_eq_error herror)

omit hp in
theorem blames_binaryOperator {blamed : Span → Prop} : Blames blamed tree readBinaryOperator := by
  intro node hnode construct span herror
  unfold readBinaryOperator at herror
  split at herror
  case h_3 | h_4 | h_9 | h_10 | h_13 | h_14 => exact Blames.meaning hnode (map_eq_error herror)
  all_goals cases herror

theorem blames_infix (left right : Expression) :
    Blames (IsDictionarySpan tree) tree (readInfix parts left · right) := by
  intro node hnode construct span herror
  dsimp only [readInfix] at herror
  split at herror
  · exact Blames.meaning hnode (bind_pure_eq_error herror)
  · exact hp.expression.one hnode (bind_pure_eq_error herror)
  · exact blames_binaryOperator hnode (bind_pure_eq_error herror)

theorem isDictionarySpan_of_grouping {grouping : Grouping Node}
    (hitems : ∀ item ∈ grouping.items, Within item tree) {construct : Unsupported} {span : Span}
    (herror : readGrouping parts grouping = .error (.unsupported construct span)) :
    IsDictionarySpan tree span := by
  induction grouping with
  | leaf node => exact blames_operand hp (hitems node List.mem_cons_self) herror
  | before node operand ih =>
    rcases bind_eq_error herror with herror | ⟨inner, -, herror⟩
    · exact ih (fun item hitem => hitems item (List.mem_cons_of_mem node hitem)) herror
    · exact blames_prefixed inner (hitems node List.mem_cons_self) herror
  | behind operand node ih =>
    rcases bind_eq_error herror with herror | ⟨inner, -, herror⟩
    · exact ih (fun item hitem => hitems item (List.mem_append_left _ hitem)) herror
    · exact blames_suffixed hp inner
        (hitems node (List.mem_append_right _ List.mem_cons_self)) herror
  | between left node right ihl ihr =>
    rcases bind_eq_error herror with herror | ⟨l, -, herror⟩
    · exact ihl (fun item hitem => hitems item (List.mem_append_left _ hitem)) herror
    rcases bind_eq_error herror with herror | ⟨r, -, herror⟩
    · exact ihr (fun item hitem =>
        hitems item (List.mem_append_right _ (List.mem_cons_of_mem node hitem))) herror
    · exact blames_infix hp l r (hitems node (List.mem_append_right _ List.mem_cons_self)) herror

theorem blames_operatorExpression :
    Blames (IsDictionarySpan tree) tree (readOperatorExpression parts) := by
  intro node hnode construct span herror
  unfold readOperatorExpression at herror
  split at herror
  · next grouping hgroup =>
    obtain ⟨hitems, -, -⟩ := Precedence.group_sound hgroup
    refine isDictionarySpan_of_grouping hp (fun item hitem => ?_) herror
    rw [hitems] at hitem
    exact .of_mem hitem hnode
  · cases herror

theorem blames_expression : Blames (IsDictionarySpan tree) tree (readExpression parts) := by
  refine (blames_operatorExpression hp).one.bind fun mapping => ?_
  intro node hnode construct span herror
  dsimp only at herror
  split at herror
  · cases herror
  · next suffix hsuffix =>
    have hwithin : Within suffix tree := .of_mem (mem_of_child? hsuffix).1 hnode
    rcases bind_eq_error herror with herror | ⟨_, -, herror⟩
    · exact hp.expression.atMostOne hwithin herror
    · exact (blames_loopHeader hp).one hwithin (bind_pure_eq_error herror)

theorem isDictionarySpan_of_suffixes {nodes : List Node} (hnodes : ∀ node ∈ nodes, Within node tree)
    {operand : Expression} {construct : Unsupported} {span : Span}
    (herror : readSuffixes parts operand nodes = .error (.unsupported construct span)) :
    IsDictionarySpan tree span := by
  induction nodes generalizing operand with
  | nil => cases herror
  | cons node nodes ih =>
    rcases bind_eq_error herror with herror | ⟨operator, -, herror⟩
    · exact blames_postfixOperator hp (hnodes node List.mem_cons_self) herror
    · exact ih (fun other hother => hnodes other (List.mem_cons_of_mem node hother)) herror

theorem blames_assignable : Blames (IsDictionarySpan tree) tree (readAssignable parts) := by
  intro node hnode construct span herror
  have hmem : ∀ child ∈ node.children, Within child tree := fun child hchild => .of_mem hchild hnode
  unfold readAssignable at herror
  split at herror
  · cases herror
  · next operand suffixes hchildren =>
    rw [hchildren] at hmem
    rcases bind_eq_error herror with herror | ⟨_, -, herror⟩
    · exact blames_operand hp (hmem operand List.mem_cons_self) herror
    · exact isDictionarySpan_of_suffixes hp
        (fun child hchild => hmem child (List.mem_cons_of_mem operand hchild)) herror

theorem blames_assignment : Blames (IsDictionarySpan tree) tree (readAssignment parts) :=
  (blames_assignable hp).one.bind fun _ => Blames.meaning.one.bind fun _ =>
    hp.expression.one.bind fun _ => .pure

theorem blames_conditional : Blames (IsDictionarySpan tree) tree (readConditional parts) := by
  intro node hnode construct span herror
  have hmem : ∀ child ∈ node.childrenOf .statementBody, Within child tree :=
    fun child hchild => .of_mem (List.mem_filter.mp hchild).1 hnode
  unfold readConditional at herror
  split at herror
  · cases herror
  · next consequent others hchildren =>
    rw [hchildren] at hmem
    rcases bind_eq_error herror with herror | ⟨_, -, herror⟩
    · cases others with
      | nil => cases herror
      | cons alternative others =>
        exact blames_body hp (hmem alternative (List.mem_cons_of_mem _ List.mem_cons_self))
          (map_eq_error herror)
    rcases bind_eq_error herror with herror | ⟨_, -, herror⟩
    · exact hp.expression.one hnode herror
    rcases bind_eq_error herror with herror | ⟨_, -, herror⟩
    · exact blames_body hp (hmem consequent List.mem_cons_self) herror
    · cases herror

theorem blames_forVariable : Blames (IsDictionarySpan tree) tree (readForVariable parts) :=
  blames_declaredType.bind fun _ => .bind .textOf fun _ => hp.expression.one.bind fun _ => .pure

theorem blames_simpleStatement :
    Blames (IsDictionarySpan tree) tree (readSimpleStatement parts) := by
  refine .first fun _ _ statement hstatement construct span herror => ?_
  split at herror
  · exact blames_assignment hp hstatement herror
  · exact hp.expression hstatement (map_eq_error herror)
  · cases herror

theorem blames_for : Blames (IsDictionarySpan tree) tree (readFor parts) := by
  have hbody : Blames (IsDictionarySpan tree) tree (one · .statementBody (readBody parts)) :=
    (blames_body hp).one
  apply Blames.onChild
  · intro node hnode header hheader construct span herror
    rcases bind_eq_error herror with herror | ⟨_, -, herror⟩
    · exact blames_loopHeader hp hheader herror
    · exact hbody hnode (bind_pure_eq_error herror)
  · refine .required fun node hnode => (blames_forVariable hp).each.bind fun _ =>
      hp.expression.each.bind fun _ => (blames_simpleStatement hp).each.bind fun _ => ?_
    exact fun _ _ _ _ herror => hbody hnode (bind_pure_eq_error herror)

theorem blames_while : Blames (IsDictionarySpan tree) tree (readWhile parts) :=
  hp.expression.one.bind fun _ => (blames_body hp).one.bind fun _ => .pure

theorem blames_jump : Blames (IsDictionarySpan tree) tree (readJump parts) := by
  refine .first fun node hnode keyword hkeyword construct span herror => ?_
  rcases bind_eq_error herror with herror | ⟨label, -, herror⟩
  · exact Blames.textOf.atMostOne hnode herror
  rcases bind_eq_error herror with herror | ⟨value, -, herror⟩
  · exact hp.expression.atMostOne hnode herror
  split at herror <;> cases herror

theorem blames_labeled : Blames (IsDictionarySpan tree) tree (readLabeled parts) :=
  .bind .textOf fun _ => hp.statement.one.bind fun _ => .pure

theorem blames_statement : Blames (IsDictionarySpan tree) tree (readStatement parts) := by
  refine .first fun _ _ statement hstatement construct span herror => ?_
  split at herror
  · exact blames_labeled hp hstatement herror
  · exact hp.declaration _ hstatement (map_eq_error herror)
  · exact blames_conditional hp hstatement herror
  · exact blames_for hp hstatement herror
  · exact blames_while hp hstatement herror
  · exact blames_jump hp hstatement herror
  · exact blames_block hp hstatement (map_eq_error herror)
  · exact blames_assignment hp hstatement herror
  · exact hp.expression hstatement (map_eq_error herror)
  · exact blames_switch hp hstatement (map_eq_error herror)
  · exact blames_when hp hstatement (map_eq_error herror)
  · cases herror

theorem blames_functionBody : Blames (IsDictionarySpan tree) tree (readFunctionBody parts) := by
  refine (blames_block hp).atMostOne.bind fun block => hp.expression.atMostOne.bind fun value => ?_
  intro node hnode construct span herror
  split at herror <;> cases herror

theorem blames_bodyUnder : Blames (IsDictionarySpan tree) tree (readBodyUnder parts) :=
  (blames_functionBody hp).atMostOne.bind fun _ => .pure

omit hp in
theorem blames_typeOrVoid {blamed : Span → Prop} : Blames blamed tree readTypeOrVoid := by
  refine blames_type.atMostOne.bind fun type => ?_
  intro node hnode construct span herror
  split at herror <;> cases herror

omit hp in
theorem blames_visibility {blamed : Span → Prop} (scope : Scope) :
    Blames blamed tree (readVisibility scope) :=
  Blames.meaning.atMostOne.bind fun _ => .pure

omit hp in
theorem blames_inheritance {blamed : Span → Prop} : Blames blamed tree readInheritance :=
  Blames.meaning.atMostOne

theorem blames_function (scope : Scope) :
    Blames (IsDictionarySpan tree) tree (readFunction parts scope) :=
  Blames.meaning.each.bind fun _ => blames_typeOrVoid.atMostOne.bind fun _ =>
    blames_userType.each.listUnder.bind fun _ => (blames_bodyUnder hp).bind fun _ =>
    (blames_annotations hp).bind fun _ => (blames_visibility scope).bind fun _ =>
    blames_inheritance.bind fun _ => (blames_typeParameters hp).bind fun _ =>
    Blames.textOf.bind fun _ => (blames_parameters hp).one.bind fun _ => .pure

theorem blames_accessor : Blames (IsDictionarySpan tree) tree (readAccessor parts) :=
  (blames_annotations hp).bind fun _ => (blames_bodyUnder hp).bind fun _ => .pure

theorem blames_property : Blames (IsDictionarySpan tree) tree (readProperty parts) :=
  hp.expression.one.atMostOne.bind fun _ => hp.expression.one.atMostOne.bind fun _ =>
    (blames_accessor hp).atMostOne.bind fun _ => (blames_accessor hp).atMostOne.bind fun _ =>
    Blames.textOf.bind fun _ => .pure

theorem blames_properties (scope : Scope) :
    Blames (IsDictionarySpan tree) tree (readProperties parts scope) :=
  Blames.meaning.each.bind fun _ => (blames_property hp).each.bind fun _ =>
    (blames_annotations hp).bind fun _ => (blames_visibility scope).bind fun _ =>
    blames_inheritance.bind fun _ => blames_type.atMostOne.one.bind fun _ => .pure

theorem blames_delegation : Blames (IsDictionarySpan tree) tree (readDelegation parts) :=
  (blames_arguments hp).one.bind fun _ => .pure

theorem blames_constructor : Blames (IsDictionarySpan tree) tree (readConstructor parts) :=
  (blames_delegation hp).each.bind fun _ => (blames_block hp).atMostOne.bind fun _ =>
    (blames_annotations hp).bind fun _ => (blames_visibility .member).bind fun _ =>
    (blames_parameters hp).one.bind fun _ => .pure

theorem blames_initBlock : Blames (IsDictionarySpan tree) tree (readInitBlock parts) :=
  (blames_block hp).one.bind fun _ => .pure

theorem blames_members : Blames (IsDictionarySpan tree) tree (readMembers parts) := by
  intro node hnode construct span herror
  obtain ⟨_, hmember, rfl⟩ := mapM_eq_error herror
  obtain ⟨child, hchild, hread⟩ := List.mem_filterMap.mp hmember
  have hwithin : Within child tree := .of_mem hchild hnode
  unfold readMember? at hread
  split at hread
  · exact blames_constructor hp hwithin (Option.some.inj hread)
  · exact blames_initBlock hp hwithin (Option.some.inj hread)
  · exact hp.declaration _ hwithin (map_eq_error (Option.some.inj hread))
  · cases hread

theorem blames_classBody (rule : Rule) :
    Blames (IsDictionarySpan tree) tree (readClassBody parts rule) :=
  (blames_members hp).listUnder.map

theorem blames_supertypes : Blames (IsDictionarySpan tree) tree (readSupertypes parts) := by
  refine .each ((blames_arguments hp).atMostOne.bind fun _ => hp.expression.atMostOne.bind fun _ =>
    blames_userType.one.bind fun _ => ?_)
  intro node hnode construct span herror
  split at herror <;> cases herror

theorem blames_class : Blames (IsDictionarySpan tree) tree (readClass parts) :=
  (blames_parameters hp).atMostOne.bind fun _ => blames_inheritance.bind fun _ =>
    (blames_variantTypeParameters hp).bind fun _ => (blames_supertypes hp).bind fun _ =>
    (blames_classBody hp .classBody).bind fun _ => .pure

theorem blames_singletonMember :
    Blames (IsDictionarySpan tree) tree (readSingletonMember parts) := by
  intro node hnode construct span herror
  unfold readSingletonMember at herror
  split at herror
  · exact blames_initBlock hp hnode herror
  · exact hp.declaration _ hnode (map_eq_error herror)
  · cases herror

theorem blames_singleton : Blames (IsDictionarySpan tree) tree (readSingleton parts) := by
  refine .required fun node hnode body hbody construct span herror => ?_
  rcases bind_eq_error herror with herror | ⟨_, -, herror⟩
  · obtain ⟨child, hchild, herror⟩ := mapM_eq_error herror
    exact blames_singletonMember hp (.of_mem hchild hbody) herror
  · exact blames_supertypes hp hnode (bind_pure_eq_error herror)

theorem blames_interface : Blames (IsDictionarySpan tree) tree (readInterface parts) :=
  (hp.declaration .interface).each.listUnder.bind fun _ =>
    (blames_variantTypeParameters hp).bind fun _ => blames_userType.each.bind fun _ => .pure

theorem blames_enumEntry : Blames (IsDictionarySpan tree) tree (readEnumEntry parts) :=
  (blames_arguments hp).listUnder.bind fun _ => (blames_members hp).atMostOne.bind fun _ =>
    (blames_annotations hp).bind fun _ => Blames.textOf.bind fun _ => .pure

theorem blames_enumClass : Blames (IsDictionarySpan tree) tree (readEnumClass parts) := by
  refine .required fun node hnode body hbody construct span herror => ?_
  rcases bind_eq_error herror with herror | ⟨entries, -, herror⟩
  · exact (blames_enumEntry hp).each hbody herror
  rcases bind_eq_error herror with herror | ⟨_, -, herror⟩
  · exact (blames_parameters hp).atMostOne hnode herror
  rcases bind_eq_error herror with herror | ⟨_, -, herror⟩
  · exact blames_variantTypeParameters hp hnode herror
  rcases bind_eq_error herror with herror | ⟨_, -, herror⟩
  · exact blames_supertypes hp hnode herror
  · exact blames_classBody hp _ hnode (bind_pure_eq_error herror)

theorem blames_constant : Blames (IsDictionarySpan tree) tree (readConstant parts) := by
  intro node hnode construct span herror
  unfold readConstant at herror
  split at herror
  · exact Blames.textOf hnode (map_eq_error herror)
  · next mark hmark =>
    rcases bind_eq_error herror with herror | ⟨_, -, herror⟩
    · exact hp.expression.one (.of_mem (mem_of_child? hmark).1 hnode) herror
    · exact Blames.textOf hnode (bind_pure_eq_error herror)

theorem blames_constants : Blames (IsDictionarySpan tree) tree (readConstants parts) :=
  (blames_constant hp).each.bind fun _ => Blames.meaning.one.bind fun _ => .pure

theorem blames_record : Blames (IsDictionarySpan tree) tree (readRecord parts) :=
  (blames_typeParameters hp).bind fun _ => (blames_parameters hp).one.bind fun _ =>
    (blames_supertypes hp).bind fun _ => (blames_classBody hp .classBody).bind fun _ => .pure

theorem blames_inlineClass : Blames (IsDictionarySpan tree) tree (readInlineClass parts) :=
  (blames_parameter hp).one.bind fun _ => (blames_supertypes hp).bind fun _ =>
    (blames_classBody hp .classBody).bind fun _ => .pure

theorem blames_annotationParameter :
    Blames (IsDictionarySpan tree) tree (readAnnotationParameter parts) :=
  hp.expression.atMostOne.bind fun _ => (blames_annotations hp).bind fun _ =>
    blames_type.one.bind fun _ => Blames.textOf.bind fun _ => .pure

theorem blames_annotationType : Blames (IsDictionarySpan tree) tree (readAnnotationType parts) :=
  (blames_annotationParameter hp).each.listUnder.bind fun _ =>
    (blames_classBody hp .annotationBody).bind fun _ => .pure

theorem blames_typeKind : Blames (IsDictionarySpan tree) tree (readTypeKind parts) := by
  intro node hnode construct span herror
  unfold readTypeKind at herror
  split at herror
  · exact blames_class hp hnode herror
  · exact blames_singleton hp hnode herror
  · exact blames_interface hp hnode herror
  · exact blames_enumClass hp hnode herror
  · exact blames_constants hp hnode herror
  · exact blames_record hp hnode herror
  · exact blames_inlineClass hp hnode herror
  · exact blames_annotationType hp hnode herror
  · cases herror

theorem blames_typeDeclaration (scope : Scope) :
    Blames (IsDictionarySpan tree) tree (readTypeDeclaration parts scope) := by
  intro node hnode construct span herror
  unfold readTypeDeclaration at herror
  split at herror
  · cases herror
  · next body hbody =>
    have hwithin : Within body tree := .of_mem (List.mem_of_find?_eq_some hbody) hnode
    rcases bind_eq_error herror with herror | ⟨_, -, herror⟩
    · exact blames_typeKind hp hwithin herror
    rcases bind_eq_error herror with herror | ⟨_, -, herror⟩
    · exact Blames.textOf hwithin herror
    rcases bind_eq_error herror with herror | ⟨_, -, herror⟩
    · exact blames_annotations hp hnode herror
    · exact blames_visibility scope hnode (bind_pure_eq_error herror)

theorem blames_declaration (scope : Scope) :
    Blames (IsDictionarySpan tree) tree (readDeclaration parts scope) := by
  refine .first fun _ _ declaration hdeclaration construct span herror => ?_
  split at herror
  · exact blames_typeDeclaration hp scope hdeclaration herror
  · exact blames_function hp scope hdeclaration (map_eq_error herror)
  · exact blames_properties hp scope hdeclaration (map_eq_error herror)
  · cases herror

theorem Readers.Blame.next : parts.next.Blame (IsDictionarySpan tree) tree where
  expression := blames_expression hp
  statement := blames_statement hp
  declaration := blames_declaration hp
  conditions := blames_conditions hp

end

theorem Readers.Blame.ofHeight (tree : Node) (height : Nat) :
    (Readers.ofHeight height).Blame (IsDictionarySpan tree) tree := by
  induction height with
  | zero =>
    constructor
    · exact Blames.missing
    · exact Blames.missing
    · exact fun _ => Blames.missing
    · exact Blames.missing
  | succ height ih => exact ih.next

theorem blames_import {blamed : Span → Prop} {tree : Node} : Blames blamed tree readImport :=
  Blames.pure.listUnder.bind fun _ => Blames.textOf.atMostOne.bind fun _ =>
    Blames.textOf.bind fun _ => .pure

/-- What a file is refused for is an initializer list in it that holds a dictionary entry. -/
theorem isDictionarySpan_of_readFile {tree : Node} {construct : Unsupported} {span : Span}
    (herror : readFile tree = .error (.unsupported construct span)) :
    IsDictionarySpan tree span := by
  have hself : Within tree tree := .self tree
  rcases bind_eq_error herror with herror | ⟨_, -, herror⟩
  · exact Blames.textOf.atMostOne hself herror
  rcases bind_eq_error herror with herror | ⟨_, -, herror⟩
  · exact blames_import.each hself herror
  · exact ((Readers.Blame.ofHeight tree _).declaration .member).each hself
      (bind_pure_eq_error herror)

end QuovaKotlin.Reading

namespace QuovaKotlin.Module

open Reading Peg

section

variable {blamed : Span → Prop} {tree : Node}

theorem blames_trimmedTextOf (rule : Rule) : Blames blamed tree (trimmedTextOf · rule) :=
  Blames.textOf.map

theorem blames_raw : Blames blamed tree readRaw :=
  (blames_trimmedTextOf .rawContent).atMostOne

theorem blames_plugin : Blames blamed tree readPlugin := by
  refine blames_raw.bind fun text => ?_
  intro node hnode construct span herror
  split at herror
  · cases herror
  · exact blames_trimmedTextOf .name hnode (bind_pure_eq_error herror)

theorem blames_repository : Blames blamed tree readRepository := by
  refine blames_raw.bind fun text => ?_
  intro node hnode construct span herror
  split at herror
  · cases herror
  · exact blames_trimmedTextOf .name hnode (map_eq_error herror)

theorem blames_dependency : Blames blamed tree readDependency := by
  refine blames_raw.bind fun text => ?_
  intro node hnode construct span herror
  split at herror
  · cases herror
  dsimp only [readDeclaredDependency] at herror
  split at herror
  · rcases bind_eq_error herror with herror | ⟨_, -, herror⟩
    · exact Blames.meaning.one hnode herror
    · exact blames_trimmedTextOf .versionName hnode (bind_pure_eq_error herror)
  · cases herror

theorem blames_setting : Blames blamed tree readSetting :=
  (blames_trimmedTextOf .name).bind fun _ => (blames_trimmedTextOf .text).bind fun _ => .pure

theorem blames_blocks {α : Type} {block entry : Rule} {read : Node → Read α}
    (h : Blames blamed tree read) : Blames blamed tree (readBlocks · block entry read) :=
  h.each.each.map

theorem blames_description : Blames blamed tree readDescription :=
  (blames_trimmedTextOf .name).one.bind fun _ => (blames_trimmedTextOf .name).one.bind fun _ =>
    (blames_trimmedTextOf .versionName).one.bind fun _ =>
    (blames_blocks blames_plugin).bind fun _ => (blames_blocks blames_repository).bind fun _ =>
    (blames_blocks blames_dependency).bind fun _ =>
    blames_setting.each.bind fun _ => blames_setting.each.bind fun _ => .pure

end

/-- Nothing in a module description is unsupported. -/
theorem readDescription_ne_unsupported (tree : Node) (construct : Unsupported) (span : Span) :
    readDescription tree ≠ .error (.unsupported construct span) := by
  have h : Blames (fun _ => False) tree readDescription := blames_description
  exact fun herror => h (.self tree) herror

end QuovaKotlin.Module

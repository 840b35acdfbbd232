import QuovaKotlin.Proofs.Precedence
import QuovaKotlin.Proofs.Reading.Readers
import QuovaKotlin.Reading.Expressions

/-!
# Reading expressions settles

The one place where reading a made tree fails is a constructor call with a dictionary. Everywhere
else the error of a part is passed on.
-/

set_option autoImplicit false

namespace QuovaKotlin.Reading

open Source (Rule)
open Precedence (Grouping Role IsOperand IsRun)
open Ast

variable {height : Nat} {rule : Rule} {node : Node}

theorem isBefore_iff (rule : Rule) :
    (roleOf rule).isBefore ↔ rule = .spreadOperator ∨ rule = .prefixOperator := by
  cases rule <;> decide

theorem isBehind_iff (rule : Rule) :
    (roleOf rule).isBehind ↔ rule = .castOperator ∨ rule = .postfixOperator := by
  cases rule <;> decide

theorem isBetween_iff (rule : Rule) :
    (roleOf rule).isBetween ↔ rule ∈ Source.Grammar.infixPart.rules := by
  cases rule <;> decide

theorem mem_primaryExpression :
    ∀ rule ∈ (Source.grammar.body .operatorExpression).rules,
      roleOf rule = .operand → rule ∈ Source.Grammar.primaryExpression.rules := by
  decide

/-- Prefix operators, one primary and postfix operators are an operand of a run. -/
theorem isOperand_of_words {front middle back : List Rule}
    (hfront : (Peg.Pattern.star Source.Grammar.prefixPart).Word front)
    (hmiddle : Source.Grammar.primaryExpression.Word middle)
    (hback : (Peg.Pattern.star Source.Grammar.postfixPart).Word back) :
    IsOperand roleOf (front ++ (middle ++ back)) := by
  have hall : ∀ ws ∈ Source.Grammar.primaryExpression.allWords,
      ws.length = 1 ∧ ∀ item ∈ ws, roleOf item = .operand := by decide
  obtain ⟨hlength, hitem⟩ := hall middle (hmiddle.mem_allWords (by decide))
  obtain ⟨item, rfl⟩ := List.length_eq_one_iff.mp hlength
  refine ⟨front, item, back, rfl, fun x hx => ?_, hitem item (by simp), fun x hx => ?_⟩
  · have hbefore : ∀ r ∈ Source.Grammar.prefixPart.rules, (roleOf r).isBefore := by decide
    exact hbefore x (hfront.mem_rules x hx)
  · have hbehind : ∀ r ∈ Source.Grammar.postfixPart.rules, (roleOf r).isBehind := by decide
    exact hbehind x (hback.mem_rules x hx)

theorem isRun_of_word {ws : List Rule}
    (h : (Source.grammar.body .operatorExpression).Word ws) : IsRun roleOf ws := by
  obtain ⟨front, _, rfl, hfront, middle, _, rfl, hmiddle, back, _, rfl, hback, joined, rfl,
    hjoined⟩ := h
  have hoperand := isOperand_of_words hfront hmiddle hback
  rw [← List.append_assoc middle, ← List.append_assoc front]
  generalize front ++ (middle ++ back) = first at hoperand
  induction joined generalizing first with
  | nil =>
    rw [List.flatten_nil, List.append_nil]
    exact .operand hoperand
  | cons part joined ih =>
    obtain ⟨_, _, rfl, hoperator, front, _, rfl, hfront, middle, back, rfl, hmiddle, hback⟩ :=
      hjoined part (by simp)
    have hbetween : ∀ ws ∈ Source.Grammar.infixPart.allWords,
        ws.length = 1 ∧ ∀ item ∈ ws, (roleOf item).isBetween := by decide
    obtain ⟨hlength, hrole⟩ := hbetween _ (hoperator.mem_allWords (by decide))
    obtain ⟨operator, rfl⟩ := List.length_eq_one_iff.mp hlength
    rw [List.flatten_cons, List.singleton_append, List.cons_append]
    exact .joined hoperand (hrole operator (by simp)) (ih (fun us hus => hjoined us (by simp [hus]))
      _ (isOperand_of_words hfront hmiddle hback))

theorem isRun_children (h : Site height .operatorExpression node) :
    IsRun nodeRole node.children :=
  (isRun_of_word (h.word (by decide))).of_map

section Parts

variable {parts : Readers} (hp : parts.Settle height)

include hp

theorem handles_lambdaParameter :
    Handles (height + 1) .lambdaParameter (readLambdaParameter parts) := by
  intro node h
  have hc : Covers node _ (readLambdaParameter parts node) :=
    (covers_declaredType h (by decide)).bind fun _ _ =>
      (Covers.nameOf h (by decide)).bind fun _ _ =>
        (covers_annotations hp h).bind fun _ _ => .pure _
  exact hc.settles h (by decide)

theorem handles_lambdaBody : Handles (height + 1) .lambdaBody (readLambdaBody parts) := by
  intro node h
  have hc : Covers node _ (readLambdaBody parts node) :=
    (Covers.atMostOne h (by decide) hp.expression).bind fun _ _ =>
      (covers_block hp h).bind fun _ _ => .pure _
  exact hc.settles h (by decide)

theorem handles_lambda : Handles (height + 1) .lambda (readLambda parts) := by
  intro node h
  have hc : Covers node _ (readLambda parts node) :=
    (Covers.each h (handles_lambdaParameter hp).lower).bind fun parameters _ =>
      Covers.either (s := .expression) h (by decide) (by decide) (by decide)
        (fun body hbody => Covers.visit h (by decide) hbody
          (((handles_lambdaBody hp).lower body (h.found hbody)).map _))
        (fun hvalue => (Covers.present h (by decide) hvalue hp.expression).map _)
  exact hc.settles h (by decide)

theorem handles_dictionaryEntry :
    Handles (height + 1) .dictionaryEntry (readDictionaryEntry parts) := by
  intro node h
  have hwords : node.children.map (·.rule) ∈ [[Rule.expression, .expression]] :=
    (h.word (by decide)).mem_allWords (by decide)
  simp only [List.mem_singleton, List.map_eq_cons_iff, List.map_eq_nil_iff] at hwords
  obtain ⟨key, _, hchildren, hkey, value, _, rfl, hvalue, rfl⟩ := hwords
  have hentries : node.childrenOf .expression = [key, value] := by
    simp [Peg.ParseTree.childrenOf, hchildren, hkey, hvalue]
  have hread (child : Node) (hmem : child ∈ node.children) (hrule : child.rule = .expression) :=
    hp.expression child (hrule ▸ h.child hmem)
  simp only [readDictionaryEntry, hentries]
  refine ((hread key (by simp [hchildren]) hkey).bind fun _ _ =>
    (hread value (by simp [hchildren]) hvalue).bind fun _ _ => Settles.ok _).congr ?_
  simp [h.offends_iff_child, hchildren]

theorem covers_initializer (h : Site (height + 1) .initializerList node) :
    Covers node [.dictionaryEntry, .valueArgument] (readInitializer parts node) := by
  unfold readInitializer
  split
  · next hentry =>
    obtain ⟨entry, hchild⟩ := Option.isSome_iff_exists.mp hentry
    have hnone : ¬ Under node .valueArgument :=
      not_under_of_child?_none (h.absent_of_never (by decide) (by decide) hchild)
    exact (Covers.each h (handles_dictionaryEntry hp).lower).map _ |>.skip hnone
  · next hentry =>
    have hnone : ¬ Under node .dictionaryEntry :=
      not_under_of_child?_none (by simpa [Peg.ParseTree.has] using hentry)
    refine ((covers_arguments hp h).map Initializer.elements).congr ?_
    simp [hnone]

theorem handles_initializer : Handles (height + 1) .initializerList (readInitializer parts) :=
  fun _ h => (covers_initializer hp h).settles h (by decide)

/-- Elements are read unless there is a dictionary in their place. -/
theorem settles_elements (h : Site (height + 1) .initializerList node) (construct : Unsupported) :
    Settles (Offends node ∨ node.has .dictionaryEntry) (readElements parts construct node) := by
  refine (handles_initializer hp node h).bind fun content hcontent => ?_
  unfold readInitializer at hcontent
  cases hentry : node.has .dictionaryEntry with
  | true =>
    simp only [hentry, if_true] at hcontent
    obtain ⟨entries, -, rfl⟩ := map_eq_ok hcontent
    exact Settles.unsupported rfl construct
  | false =>
    simp only [hentry] at hcontent
    obtain ⟨elements, -, rfl⟩ := map_eq_ok hcontent
    exact (Settles.ok elements).congr (by simp)

omit hp in
theorem covers_elementType (h : Site (height + 1) .constructorInvocation node) :
    Covers node [.primitiveTypeNoArray, .userType] (readElementType node) :=
  Covers.either h (by decide) (by decide) (by decide)
    (fun kind hkind => Covers.visit h (by decide) hkind
      ((handles_primitiveKind kind (h.found hkind)).map _))
    (fun htype => (Covers.present h (by decide) htype handles_userType).map _)

theorem handles_arraySize :
    Handles (height + 1) .arraySize fun size => one size .expression parts.expression :=
  fun _ h => (Covers.one h (by decide) hp.expression).settles h (by decide)

/-- What can be wrong with the arguments of a constructor call. -/
def OffendsInArguments (node : Node) : Prop :=
  Under node .valueArguments ∨ Under node .initializerList ∨ IsDictionaryCall node

omit hp in
theorem offends_constructor_iff (h : Site height .constructorInvocation node) :
    Offends node ↔ Under node .arraySize ∨ OffendsInArguments node := by
  have hunder : (∃ child ∈ node.children, Offends child) ↔
      ∃ x ∈ [Rule.arraySize, .valueArguments, .initializerList], Under node x :=
    h.exists_under (by decide)
  rw [offends_iff, hunder]
  simp only [OffendsInArguments, List.mem_cons, List.not_mem_nil, or_false, exists_eq_or_imp,
    exists_eq_left]
  grind

omit hp in
theorem not_dictionaryCall (hlist : node.child? .initializerList = none) :
    ¬ IsDictionaryCall node := by
  rintro ⟨-, list, hmem, hrule, -⟩
  obtain ⟨other, hother⟩ := exists_child? hmem hrule
  rw [hlist] at hother
  cases hother

omit hp in
/-- A call with the size of an array has no arguments. -/
theorem not_offendsInArguments {size : Node} (h : Site height .constructorInvocation node)
    (hsize : node.child? .arraySize = some size) : ¬ OffendsInArguments node := by
  have harguments : node.child? .valueArguments = none :=
    h.absent_of_never (by decide) (by decide) hsize
  have hlist : node.child? .initializerList = none :=
    h.absent_of_never (by decide) (by decide) hsize
  rintro (hunder | hunder | hcall)
  · exact not_under_of_child?_none harguments hunder
  · exact not_under_of_child?_none hlist hunder
  · exact not_dictionaryCall hlist hcall

/-- The elements of a call offend as its arguments do, where there are no other arguments. -/
theorem settles_elementsUnder {list : Node} (h : Site (height + 1) .constructorInvocation node)
    (hlist : node.child? .initializerList = some list)
    (harguments : node.child? .valueArguments = none) (construct : Unsupported) :
    Settles (OffendsInArguments node) (readElements parts construct list) := by
  obtain ⟨hmem, hrule⟩ := mem_of_child? hlist
  have hcall : IsDictionaryCall node ↔ list.has .dictionaryEntry := by
    constructor
    · rintro ⟨-, other, hother, hrule', hentry⟩
      rwa [h.eq_of_never (a := (· = .initializerList)) (b := (· = .initializerList)) (by decide)
        hmem hother (by simpa using hrule) (by simpa using hrule')]
    · exact fun hentry => ⟨h.rule_eq, list, hmem, hrule, hentry⟩
  refine (settles_elements hp ((h.found hlist).mono (Nat.le_succ _)) construct).congr ?_
  simp only [OffendsInArguments, not_under_of_child?_none harguments, false_or, hcall,
    h.under_iff (by decide) hlist]

/-- Arguments behind a type without dimensions. -/
theorem settles_constructorArguments (h : Site (height + 1) .constructorInvocation node)
    (hsize : node.child? .arraySize = none) (hdimension : node.child? .emptyDimension = none) :
    Settles (OffendsInArguments node) (readConstructorArguments parts node) := by
  unfold readConstructorArguments
  cases harguments : node.child? .valueArguments with
  | some arguments =>
    have hlist : node.child? .initializerList = none :=
      h.absent_of_never (by decide) (by decide) harguments
    refine ((handles_arguments hp).lower arguments (h.found harguments)).congr ?_
    simp only [OffendsInArguments, not_under_of_child?_none hlist, not_dictionaryCall hlist,
      or_false, h.under_iff (by decide) harguments]
  | none =>
    cases hlist : node.child? .initializerList with
    | some list => exact settles_elementsUnder hp h hlist harguments _
    | none =>
      obtain ⟨r, hr, child, hchild⟩ := h.child?_of_always
        [.arraySize, .emptyDimension, .valueArguments, .initializerList] (by decide)
      simp only [List.mem_cons, List.not_mem_nil, or_false] at hr
      rcases hr with rfl | rfl | rfl | rfl <;> simp_all

omit hp in
theorem sized?_isSome (element : ElementType) (size : Expression) (sizes : List Expression) :
    (element.sized? (size :: sizes)).isSome := by
  induction sizes generalizing size with
  | nil => rfl
  | cons next sizes ih =>
    obtain ⟨inner, hinner⟩ := Option.isSome_iff_exists.mp (ih next)
    simp [ElementType.sized?, hinner]

omit hp in
/-- A size is read for every child that holds one. -/
theorem each_eq_nil_iff {α : Type} {read : Node → Read α} {r : Rule} {values : List α}
    (h : each node r read = .ok values) : values = [] ↔ node.child? r = none := by
  rw [← childrenOf_eq_nil]
  unfold each at h
  cases hchildren : node.childrenOf r with
  | nil =>
    rw [hchildren] at h
    cases h
    simp
  | cons child children =>
    rw [hchildren, List.mapM_cons] at h
    obtain ⟨value, -, h⟩ := bind_eq_ok h
    obtain ⟨values', -, h⟩ := bind_eq_ok h
    cases h
    simp

theorem handles_constructorInvocation :
    Handles (height + 1) .constructorInvocation (readConstructorInvocation parts) := by
  intro node h
  have helement : Settles False (readElementType node) := (covers_elementType h).congr (by
    simp [h.not_under_inert (r := .primitiveTypeNoArray) (by decide),
      h.not_under_inert (r := .userType) (by decide)])
  have hsizes : Settles (Under node .arraySize) (each node .arraySize _) :=
    (Covers.each h (handles_arraySize hp).lower).congr (by simp)
  refine (helement.bind fun element _ => hsizes.bind fun sizes hread => ?_).congr
    ((false_or _).to_iff.trans (offends_constructor_iff h).symm)
  cases sizes with
  | cons size sizes =>
    obtain ⟨⟨type, array⟩, harray⟩ := Option.isSome_iff_exists.mp (sized?_isSome element size sizes)
    have hsize : node.child? .arraySize ≠ none := by simp [← each_eq_nil_iff hread]
    obtain ⟨child, hchild⟩ := Option.ne_none_iff_exists'.mp hsize
    simp only [harray]
    exact (Settles.ok array).congr (by simp [not_offendsInArguments h hchild])
  | nil =>
    have hsize : node.child? .arraySize = none := (each_eq_nil_iff hread).mp rfl
    simp only [ElementType.sized?]
    split
    · next hdimensions =>
      have hdimension : node.child? .emptyDimension = none := by
        simpa [Peg.ParseTree.child?, Peg.ParseTree.childrenOf] using hdimensions
      exact (settles_constructorArguments hp h hsize hdimension).map _
    · next hdimensions =>
      have hdimension : node.child? .emptyDimension ≠ none := by
        simpa [Peg.ParseTree.child?, Peg.ParseTree.childrenOf] using hdimensions
      obtain ⟨dimension, hdimension⟩ := Option.ne_none_iff_exists'.mp hdimension
      obtain ⟨list, hlist⟩ : ∃ list, node.child? .initializerList = some list :=
        h.child?_of_present (by decide) hdimension
      have harguments : node.child? .valueArguments = none :=
        h.absent_of_never (by decide) (by decide) hdimension
      simp only [one, required, hlist]
      refine ((settles_elementsUnder hp h hlist harguments _).bind fun elements _ =>
        Settles.ok _).congr (by simp)

omit hp in
theorem handles_conditionKind : Handles (height + 1) .conditionKind readConditionKind := by
  intro node h
  obtain ⟨kind, hchildren, hrule, -⟩ := h.only_child (by decide)
  change kind.rule ∈ [.kwCase, .inOperator, .instanceOperator] at hrule
  simp only [List.mem_cons, List.not_mem_nil, or_false] at hrule
  have hnone : False ↔ Offends node := by simpa using h.not_offends (by decide)
  refine Settles.congr ?_ hnone
  simp only [readConditionKind, first, hchildren, ok_bind]
  rcases hrule with hrule | hrule | hrule <;> rw [hrule] <;> exact Settles.ok _

theorem handles_conditions : Handles (height + 1) .switchCondition (readConditions parts) := by
  intro node h
  have hc : Covers node _ (readConditions parts node) :=
    (Covers.one h (by decide) handles_conditionKind.lower).bind fun _ _ =>
      (Covers.each h hp.expression).bind fun _ _ =>
        (Covers.listUnder h (by decide) hp.conditions).bind fun _ _ => .pure _
  exact hc.settles h (by decide)

theorem handles_switchBranch : Handles (height + 1) .switchBranch (readSwitchBranch parts) := by
  intro node h
  have hc : Covers node _ (readSwitchBranch parts node) :=
    (Covers.one h (by decide) (handles_conditions hp).lower).bind fun _ _ =>
      (Covers.one h (by decide) (handles_body hp).lower).bind fun _ _ => .pure _
  exact hc.settles h (by decide)

theorem handles_defaultBranch :
    Handles (height + 1) .defaultBranch fun branch => one branch .statementBody (readBody parts) :=
  fun _ h => (Covers.one h (by decide) (handles_body hp).lower).settles h (by decide)

theorem covers_fallback (h : Site (height + 1) rule node)
    (honce : atMostOnce rule .defaultBranch) :
    Covers node [.defaultBranch] (readFallback parts node) :=
  Covers.atMostOne h honce (handles_defaultBranch hp).lower

theorem handles_switch : Handles (height + 1) .switchExpression (readSwitch parts) := by
  intro node h
  have hc : Covers node _ (readSwitch parts node) :=
    (Covers.each h (handles_switchBranch hp).lower).bind fun _ _ =>
      (Covers.one h (by decide) hp.expression).bind fun _ _ =>
        (covers_fallback hp h (by decide)).bind fun _ _ => .pure _
  exact hc.settles h (by decide)

theorem handles_whenBranch : Handles (height + 1) .whenBranch (readWhenBranch parts) := by
  intro node h
  have hc : Covers node _ (readWhenBranch parts node) :=
    (Covers.each h hp.expression).bind fun _ _ =>
      (Covers.one h (by decide) (handles_body hp).lower).bind fun _ _ => .pure _
  exact hc.settles h (by decide)

theorem handles_when : Handles (height + 1) .whenExpression (readWhen parts) := by
  intro node h
  have hc : Covers node _ (readWhen parts node) :=
    (Covers.each h (handles_whenBranch hp).lower).bind fun _ _ =>
      (covers_fallback hp h (by decide)).bind fun _ _ => .pure _
  exact hc.settles h (by decide)

omit hp in
theorem handles_super :
    Handles (height + 1) .superLiteral fun node => atMostOne node .userType readUserType :=
  fun _ h => (Covers.atMostOne h (by decide) handles_userType).settles h (by decide)

omit hp in
/-- A word or a symbol is read without looking into it. -/
theorem Site.settles_ok {α : Type} (h : Site height rule node) (hinert : isInert rule) (a : α) :
    Settles (Offends node) (.ok a : Read α) :=
  (Settles.ok a).congr (by simpa using h.not_offends hinert)

theorem settles_literal (h : Site (height + 1) rule node)
    (hrule : rule ∈ (Source.grammar.body .literal).rules) :
    Settles (Offends node) (readLiteral parts node) := by
  change rule ∈ [.multilineStringLiteral, .stringLiteral, .charLiteral, .realLiteral, .longLiteral,
    .integerLiteral, .booleanLiteral, .nullLiteral, .voidLiteral, .thisLiteral, .superLiteral,
    .lambda, .initializerList] at hrule
  simp only [List.mem_cons, List.not_mem_nil, or_false] at hrule
  unfold readLiteral
  rw [h.rule_eq]
  rcases hrule with rfl | rfl | rfl | rfl | rfl | rfl | rfl | rfl | rfl | rfl | rfl | rfl | rfl
  iterate 10 · exact h.settles_ok (by decide) _
  · exact (handles_super node h).map _
  · exact handles_lambda hp node h
  · refine ((handles_initializer hp node h).bind fun content _ => ?_).congr (or_false _).to_iff
    cases content with
    | elements elements => exact Settles.ok _
    | entries entries => exact Settles.ok _

theorem handles_literal :
    Handles (height + 1) .literal fun node => first node >>= readLiteral parts := by
  intro node h
  obtain ⟨child, hchildren, hrule, hoff⟩ := h.only_child (by decide)
  have hchild := h.child (hchildren ▸ List.mem_cons_self)
  simp only [first, hchildren]
  exact (settles_literal hp (hchild.mono (Nat.le_succ _)) hrule).congr hoff.symm

/-- An operand stands directly in an operator expression, so an expression in parentheses is as low
as the readers of parts need. -/
theorem settles_operand (h : Site height rule node)
    (hrule : rule ∈ Source.Grammar.primaryExpression.rules) :
    Settles (Offends node) (readOperand parts node) := by
  change rule ∈ [.literal, .constructorInvocation, .switchExpression, .whenExpression, .expression,
    .simpleIdentifier] at hrule
  simp only [List.mem_cons, List.not_mem_nil, or_false] at hrule
  unfold readOperand
  rw [h.rule_eq]
  have hhigh := h.mono (Nat.le_succ height)
  rcases hrule with rfl | rfl | rfl | rfl | rfl | rfl
  · exact handles_literal hp node hhigh
  · exact handles_constructorInvocation hp node hhigh
  · exact handles_switch hp node hhigh
  · exact handles_when hp node hhigh
  · exact (hp.expression node h).map _
  · exact h.settles_ok (by decide) _

theorem handles_invocation : Handles (height + 1) .invocationSuffix (readInvocation parts) := by
  intro node h
  have hc : Covers node _ (readInvocation parts node) :=
    (Covers.listUnder h (by decide) handles_typeArguments).bind fun _ _ =>
      (Covers.listUnder h (by decide) (handles_arguments hp).lower).bind fun _ _ =>
        (Covers.atMostOne h (by decide) (handles_lambdaBody hp).lower).bind fun _ _ => .pure _
  exact hc.settles h (by decide)

theorem handles_indexing :
    Handles (height + 1) .indexingSuffix fun node => each node .expression parts.expression :=
  fun _ h => (Covers.each h hp.expression).settles h (by decide)

omit hp in
theorem covers_callTarget (h : Site (height + 1) .callSuffix node) :
    Covers node [] (readCallTarget node) := by
  unfold readCallTarget
  split
  · exact Covers.ok _
  · next hclass =>
    obtain ⟨name, hname⟩ := h.child?_of_absent (r := .classReference) (s := .simpleIdentifier)
      (by decide) (by simpa [Peg.ParseTree.has] using hclass)
    simp only [nameOf, textOf, required, hname]
    exact Covers.ok _

theorem handles_postfixOperator :
    Handles (height + 1) .postfixOperator (readPostfixOperator parts) := by
  intro node h
  obtain ⟨operator, hchildren, hrule, hoff⟩ := h.only_child (by decide)
  have hoperator := (h.child (hchildren ▸ List.mem_cons_self)).mono (Nat.le_succ _)
  change operator.rule ∈ [.postfixToken, .invocationSuffix, .indexingSuffix, .callSuffix] at hrule
  simp only [List.mem_cons, List.not_mem_nil, or_false] at hrule
  refine Settles.congr ?_ hoff.symm
  simp only [readPostfixOperator, first, hchildren, ok_bind]
  rcases hrule with hrule | hrule | hrule | hrule <;> rw [hrule] at hoperator ⊢
  · exact handles_meaning (by decide) operator hoperator
  · exact handles_invocation hp operator hoperator
  · exact (handles_indexing hp operator hoperator).map _
  · have hkind : Handles height .callOperator (meaning CallKind.ofSymbol?) :=
      handles_meaning (by decide)
    have hc : Covers operator _ _ :=
      (Covers.one hoperator (by decide) hkind).bind fun kind _ =>
        (covers_callTarget hoperator).bind fun target _ =>
          .pure (PostfixOperator.call kind target)
    exact hc.settles hoperator (by decide)

omit hp in
theorem handles_castOperator :
    Handles (height + 1) .castOperator fun node => one node .typeUse readType :=
  fun _ h => (Covers.one h (by decide) handles_type).settles h (by decide)

omit hp in
theorem settles_prefixed (h : Site height rule node) (hrule : (roleOf rule).isBefore)
    (operand : Expression) : Settles (Offends node) (readPrefixed node operand) := by
  unfold readPrefixed
  rw [h.rule_eq]
  rcases (isBefore_iff rule).mp hrule with rfl | rfl
  · exact h.settles_ok (by decide) _
  · refine ((handles_meaning (by decide) node h).bind fun operator _ =>
      Settles.ok (Expression.prefixed operator operand)).congr (or_false _).to_iff

theorem settles_suffixed (h : Site (height + 1) rule node) (hrule : (roleOf rule).isBehind)
    (operand : Expression) : Settles (Offends node) (readSuffixed parts operand node) := by
  unfold readSuffixed
  rw [h.rule_eq]
  rcases (isBehind_iff rule).mp hrule with rfl | rfl
  · exact ((handles_castOperator node h).bind fun type _ =>
      Settles.ok (Expression.cast operand type (node.has .safeCast))).congr (or_false _).to_iff
  · exact ((handles_postfixOperator hp node h).bind fun operator _ =>
      Settles.ok (Expression.suffixed operand operator)).congr (or_false _).to_iff

omit hp in
/-- The operator of an infix token without operands of its own. -/
theorem settles_binaryOperator (h : Site height rule node)
    (hrule : rule ∈ Source.Grammar.infixPart.rules)
    (hplain : rule ≠ .assignmentOperator ∧ rule ≠ .ternaryOperator) :
    Settles (Offends node) (readBinaryOperator node) := by
  change rule ∈ [.assignmentOperator, .ternaryOperator, .disjunctionOperator, .conjunctionOperator,
    .spaceshipOperator, .equalityOperator, .shiftOperator, .comparisonOperator, .bitOrOperator,
    .bitXorOperator, .bitAndOperator, .namedCheckOperator, .elvisOperator, .rangeOperator,
    .sumOperator, .productOperator] at hrule
  simp only [List.mem_cons, List.not_mem_nil, or_false, hplain.1, hplain.2, false_or] at hrule
  unfold readBinaryOperator
  rw [h.rule_eq]
  rcases hrule with rfl | rfl | rfl | rfl | rfl | rfl | rfl | rfl | rfl | rfl | rfl | rfl | rfl |
    rfl
  · exact h.settles_ok (by decide) _
  · exact h.settles_ok (by decide) _
  · exact h.settles_ok (by decide) _
  · exact (handles_meaning (by decide) node h).map _
  · exact (handles_meaning (by decide) node h).map _
  · exact (handles_meaning (by decide) node h).map _
  · exact h.settles_ok (by decide) _
  · exact h.settles_ok (by decide) _
  · exact h.settles_ok (by decide) _
  · exact (handles_meaning (by decide) node h).map _
  · exact h.settles_ok (by decide) _
  · exact h.settles_ok (by decide) _
  · exact (handles_meaning (by decide) node h).map _
  · exact (handles_meaning (by decide) node h).map _

theorem handles_ternaryOperator :
    Handles (height + 1) .ternaryOperator fun node => one node .expression parts.expression :=
  fun _ h => (Covers.one h (by decide) hp.expression).settles h (by decide)

theorem settles_infix (h : Site (height + 1) rule node) (hrule : (roleOf rule).isBetween)
    (left right : Expression) : Settles (Offends node) (readInfix parts left node right) := by
  unfold readInfix
  rw [h.rule_eq]
  split
  · exact ((handles_meaning (by decide) node h).bind fun operator _ =>
      Settles.ok (Expression.assign left operator right)).congr (or_false _).to_iff
  · exact ((handles_ternaryOperator hp node h).bind fun middle _ =>
      Settles.ok (Expression.ternary left middle right)).congr (or_false _).to_iff
  · next hassignment hternary =>
    have hread := settles_binaryOperator h ((isBetween_iff rule).mp hrule) ⟨hassignment, hternary⟩
    exact (hread.bind fun operator _ =>
      Settles.ok (Expression.binary operator left right)).congr (or_false _).to_iff

/-- Reading a grouping visits all of its items. -/
theorem settles_grouping (g : Grouping Node)
    (hitems : ∀ item ∈ g.items, Site height item.rule item ∧
      item.rule ∈ (Source.grammar.body .operatorExpression).rules)
    (hfits : g.Fits nodeRole) :
    Settles (∃ item ∈ g.items, Offends item) (readGrouping parts g) := by
  induction g with
  | leaf item =>
    obtain ⟨hsite, hrule⟩ := hitems item (by simp [Grouping.items])
    have hread := settles_operand hp hsite (mem_primaryExpression _ hrule hfits)
    exact hread.congr (by simp [Grouping.items])
  | before operator operand ih =>
    obtain ⟨hsite, -⟩ := hitems operator (by simp [Grouping.items])
    have hoperand := ih (fun item hmem => hitems item (by simp [Grouping.items, hmem])) hfits.2
    refine (hoperand.bind fun e _ => settles_prefixed hsite hfits.1 e).congr ?_
    simp only [Grouping.items, List.mem_cons, exists_eq_or_imp]
    exact or_comm
  | behind operand operator ih =>
    obtain ⟨hsite, -⟩ := hitems operator (by simp [Grouping.items])
    have hoperand := ih (fun item hmem => hitems item (by simp [Grouping.items, hmem])) hfits.2
    refine (hoperand.bind fun e _ =>
      settles_suffixed hp (hsite.mono (Nat.le_succ _)) hfits.1 e).congr ?_
    simp only [Grouping.items, List.mem_append, List.mem_singleton, or_and_right, exists_or,
      exists_eq_left]
  | between left operator right ihl ihr =>
    obtain ⟨hsite, -⟩ := hitems operator (by simp [Grouping.items])
    obtain ⟨hoperator, hl, hr⟩ := hfits
    have hleft := ihl (fun item hmem => hitems item (by simp [Grouping.items, hmem])) hl
    have hright := ihr (fun item hmem => hitems item (by simp [Grouping.items, hmem])) hr
    refine (hleft.bind fun l _ => hright.bind fun r _ =>
      settles_infix hp (hsite.mono (Nat.le_succ _)) hoperator l r).congr ?_
    simp only [Grouping.items, List.mem_append, List.mem_cons, or_and_right, exists_or,
      exists_eq_left]
    exact or_congr_right or_comm

theorem handles_operatorExpression :
    Handles (height + 1) .operatorExpression (readOperatorExpression parts) := by
  intro node h
  obtain ⟨g, hgroup⟩ := (isRun_children h).grouped []
  obtain ⟨hitems, hfits, -⟩ := Precedence.group_sound hgroup
  have hgroup' : Precedence.group (fun item => roleOf item.rule) node.children = some g := hgroup
  have hread := settles_grouping hp g (fun item hmem => by
    rw [hitems] at hmem
    exact ⟨h.child hmem, (h.word (by decide)).mem_rules _ (List.mem_map_of_mem hmem)⟩) hfits
  rw [readOperatorExpression, hgroup']
  exact hread.congr (by rw [hitems, h.offends_iff_child (by decide)])

theorem handles_expression : Handles (height + 1) .expression (readExpression parts) := by
  intro node h
  have hc : Covers node [.operatorExpression, .forSuffix] (readExpression parts node) := by
    refine (Covers.one h (by decide) (handles_operatorExpression hp).lower).bind
      fun mapping _ => ?_
    cases hsuffix : node.child? .forSuffix with
    | none => exact (Covers.ok mapping).skip (not_under_of_child?_none hsuffix)
    | some suffix =>
      have hsite := (h.found hsuffix).mono (Nat.le_succ _)
      have hread : Covers suffix _ _ :=
        (Covers.atMostOne hsite (by decide) hp.expression).bind fun condition _ =>
          (Covers.one hsite (by decide) (handles_loopHeader hp).lower).bind fun header _ =>
            .pure (Expression.comprehension mapping header.1 header.2 condition)
      exact Covers.visit h (by decide) hsuffix (hread.settles hsite (by decide))
  exact hc.settles h (by decide)

end Parts

end QuovaKotlin.Reading

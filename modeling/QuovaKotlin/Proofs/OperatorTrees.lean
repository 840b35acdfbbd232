import QuovaKotlin.Proofs.OperatorSymbols
import QuovaKotlin.Proofs.Precedence

/-!
# The trees of operator expressions

An operator expression is a flat run of operands and operators. It is read as the tree of the one
grouping of its parts that keeps them in order and meets the spine conditions of the twenty levels.
Both sides are spelled out apart from the code that reads: the level of each rule, and the
expression that each operator makes of its operands.
-/

set_option autoImplicit false

namespace QuovaKotlin.Reading

open Ast
open Precedence (Grouping IsRun Role)
open Source (Rule)

/-- The level of what a rule makes, from assignments up to postfix operators. -/
def levelOf : Rule → Role
  | .assignmentOperator => .rightToLeft 10
  | .spreadOperator => .before 20
  | .ternaryOperator => .rightToLeft 30
  | .disjunctionOperator => .leftToRight 40
  | .conjunctionOperator => .leftToRight 50
  | .equalityOperator => .leftToRight 60
  | .comparisonOperator => .leftToRight 70
  | .spaceshipOperator => .leftToRight 80
  | .bitOrOperator => .leftToRight 90
  | .bitXorOperator => .leftToRight 100
  | .bitAndOperator => .leftToRight 110
  | .shiftOperator => .leftToRight 120
  | .castOperator => .behind 130
  | .namedCheckOperator => .leftToRight 140
  | .elvisOperator => .leftToRight 150
  | .rangeOperator => .leftToRight 160
  | .sumOperator => .leftToRight 170
  | .productOperator => .leftToRight 180
  | .prefixOperator => .before 190
  | .postfixOperator => .behind 200
  | _ => .operand

def nodeLevel (node : Node) : Role :=
  levelOf node.rule

theorem roleOf_eq_levelOf (rule : Rule) : roleOf rule = levelOf rule := by
  cases rule <;> rfl

/-- What a prefix operator makes of its operand. -/
inductive Prefixes (node : Node) : (Expression → Expression) → Prop
  | spread : node.rule = .spreadOperator → Prefixes node .spread
  | prefixed {operator : PrefixOperator} : node.rule = .prefixOperator →
      node.text = operator.sourceSymbol → Prefixes node (.prefixed operator)

/-- What a postfix operator makes of its operand. -/
inductive Suffixes (parts : Readers) (node : Node) : (Expression → Expression) → Prop
  | cast {use : Node} {type : TypeRef} : node.rule = .castOperator →
      node.child? .typeUse = some use → readType use = .ok type →
      Suffixes parts node fun operand => .cast operand type (node.has .safeCast)
  | suffixed {operator : PostfixOperator} : node.rule = .postfixOperator →
      readPostfixOperator parts node = .ok operator →
      Suffixes parts node fun operand => .suffixed operand operator

/-- What an infix operator makes of its left and its right operand. -/
inductive Joins (parts : Readers) (node : Node) : (Expression → Expression → Expression) → Prop
  | assign {operator : AssignmentOperator} : node.rule = .assignmentOperator →
      node.text = operator.sourceSymbol →
      Joins parts node fun target value => .assign target operator value
  | ternary {middle : Node} {consequent : Expression} : node.rule = .ternaryOperator →
      node.child? .expression = some middle → parts.expression middle = .ok consequent →
      Joins parts node fun condition alternative => .ternary condition consequent alternative
  | binary {operator : BinaryOperator} : node.rule = operator.rule →
      (operator.isAlone ∨ node.text = operator.sourceSymbol) →
      Joins parts node fun left right => .binary operator left right

/-- The tree that a grouping stands for: every operator around the trees of its own operands. -/
inductive Stands (parts : Readers) : Grouping Node → Expression → Prop
  | leaf {node : Node} {e : Expression} : readOperand parts node = .ok e →
      Stands parts (.leaf node) e
  | before {node : Node} {g : Grouping Node} {f : Expression → Expression} {operand : Expression} :
      Prefixes node f → Stands parts g operand → Stands parts (.before node g) (f operand)
  | behind {node : Node} {g : Grouping Node} {f : Expression → Expression} {operand : Expression} :
      Suffixes parts node f → Stands parts g operand → Stands parts (.behind g node) (f operand)
  | between {node : Node} {l r : Grouping Node} {f : Expression → Expression → Expression}
      {left right : Expression} :
      Joins parts node f → Stands parts l left → Stands parts r right →
      Stands parts (.between l node r) (f left right)

/-- The node can be read for itself, as the operand or the operator that its level makes it. -/
def IsReadable (parts : Readers) (node : Node) : Prop :=
  match nodeLevel node with
  | .operand => ∃ e, readOperand parts node = .ok e
  | .before _ => ∃ f, Prefixes node f
  | .behind _ => ∃ f, Suffixes parts node f
  | .leftToRight _ | .rightToLeft _ => ∃ f, Joins parts node f

section

variable {parts : Readers} {node : Node}

theorem readPrefixed_eq_ok_iff (h : (nodeLevel node).isBefore) {operand e : Expression} :
    readPrefixed node operand = .ok e ↔ ∃ f, Prefixes node f ∧ f operand = e := by
  have hrules : node.rule = .spreadOperator ∨ node.rule = .prefixOperator := by
    unfold nodeLevel at h
    generalize node.rule = rule at h
    cases rule <;> first | exact .inl rfl | exact .inr rfl | cases h
  constructor
  · intro hread
    unfold readPrefixed at hread
    split at hread
    · next hrule =>
      cases hread
      exact ⟨.spread, .spread hrule, rfl⟩
    · next hspread =>
      obtain ⟨operator, hoperator, hread⟩ := bind_eq_ok hread
      cases hread
      have htext := PrefixOperator.ofSymbol?_eq_some_iff.mp (meaning_eq_ok_iff.mp hoperator)
      exact ⟨.prefixed operator, .prefixed (hrules.resolve_left hspread) htext, rfl⟩
  · rintro ⟨f, hf, rfl⟩
    unfold readPrefixed
    cases hf with
    | spread hrule => rw [hrule]; rfl
    | prefixed hrule htext =>
      rw [hrule, meaning_eq_ok_iff.mpr (PrefixOperator.ofSymbol?_eq_some_iff.mpr htext)]
      rfl

theorem readSuffixed_eq_ok_iff (h : (nodeLevel node).isBehind) {operand e : Expression} :
    readSuffixed parts operand node = .ok e ↔ ∃ f, Suffixes parts node f ∧ f operand = e := by
  have hrules : node.rule = .castOperator ∨ node.rule = .postfixOperator := by
    unfold nodeLevel at h
    generalize node.rule = rule at h
    cases rule <;> first | exact .inl rfl | exact .inr rfl | cases h
  constructor
  · intro hread
    unfold readSuffixed at hread
    split at hread
    · next hrule =>
      obtain ⟨type, htype, hread⟩ := bind_eq_ok hread
      cases hread
      obtain ⟨use, huse, htype⟩ := one_eq_ok_iff.mp htype
      exact ⟨_, .cast hrule huse htype, rfl⟩
    · next hcast =>
      obtain ⟨operator, hoperator, hread⟩ := bind_eq_ok hread
      cases hread
      exact ⟨_, .suffixed (hrules.resolve_left hcast) hoperator, rfl⟩
  · rintro ⟨f, hf, rfl⟩
    unfold readSuffixed
    cases hf with
    | cast hrule huse htype =>
      rw [hrule, one_eq_ok_iff.mpr ⟨_, huse, htype⟩]
      rfl
    | suffixed hrule hoperator =>
      rw [hrule, hoperator]
      rfl

theorem readInfix_eq_ok_iff {left right e : Expression} :
    readInfix parts left node right = .ok e ↔ ∃ f, Joins parts node f ∧ f left right = e := by
  constructor
  · intro hread
    unfold readInfix at hread
    split at hread
    · next hrule =>
      obtain ⟨operator, hoperator, hread⟩ := bind_eq_ok hread
      cases hread
      have htext := AssignmentOperator.ofSymbol?_eq_some_iff.mp (meaning_eq_ok_iff.mp hoperator)
      exact ⟨_, .assign hrule htext, rfl⟩
    · next hrule =>
      obtain ⟨consequent, hconsequent, hread⟩ := bind_eq_ok hread
      cases hread
      obtain ⟨middle, hmiddle, hconsequent⟩ := one_eq_ok_iff.mp hconsequent
      exact ⟨_, .ternary hrule hmiddle hconsequent, rfl⟩
    · obtain ⟨operator, hoperator, hread⟩ := bind_eq_ok hread
      cases hread
      obtain ⟨hrule, htext⟩ := readBinaryOperator_eq_ok_iff.mp hoperator
      exact ⟨_, .binary hrule htext, rfl⟩
  · rintro ⟨f, hf, rfl⟩
    unfold readInfix
    cases hf with
    | assign hrule htext =>
      rw [hrule, meaning_eq_ok_iff.mpr (AssignmentOperator.ofSymbol?_eq_some_iff.mpr htext)]
      rfl
    | ternary hrule hmiddle hconsequent =>
      rw [hrule, one_eq_ok_iff.mpr ⟨_, hmiddle, hconsequent⟩]
      rfl
    | @binary operator hrule htext =>
      rw [readBinaryOperator_eq_ok_iff.mpr ⟨hrule, htext⟩, hrule]
      cases operator <;> rfl

/-- Reading a grouping gives the tree that it stands for, and no other. -/
theorem readGrouping_eq_ok_iff {g : Grouping Node} (hfits : g.Fits nodeLevel) {e : Expression} :
    readGrouping parts g = .ok e ↔ Stands parts g e := by
  induction g generalizing e with
  | leaf node => exact ⟨.leaf, fun h => by cases h with | leaf h => exact h⟩
  | before node g ih =>
    obtain ⟨hbefore, hfits⟩ := hfits
    constructor
    · intro h
      obtain ⟨operand, hoperand, h⟩ := bind_eq_ok h
      obtain ⟨f, hf, rfl⟩ := (readPrefixed_eq_ok_iff hbefore).mp h
      exact .before hf ((ih hfits).mp hoperand)
    · intro h
      cases h with
      | before hf hoperand =>
        rw [readGrouping, (ih hfits).mpr hoperand]
        exact (readPrefixed_eq_ok_iff hbefore).mpr ⟨_, hf, rfl⟩
  | behind g node ih =>
    obtain ⟨hbehind, hfits⟩ := hfits
    constructor
    · intro h
      obtain ⟨operand, hoperand, h⟩ := bind_eq_ok h
      obtain ⟨f, hf, rfl⟩ := (readSuffixed_eq_ok_iff hbehind).mp h
      exact .behind hf ((ih hfits).mp hoperand)
    · intro h
      cases h with
      | behind hf hoperand =>
        rw [readGrouping, (ih hfits).mpr hoperand]
        exact (readSuffixed_eq_ok_iff hbehind).mpr ⟨_, hf, rfl⟩
  | between l node r ihl ihr =>
    obtain ⟨-, hfl, hfr⟩ := hfits
    constructor
    · intro h
      obtain ⟨left, hleft, h⟩ := bind_eq_ok h
      obtain ⟨right, hright, h⟩ := bind_eq_ok h
      obtain ⟨f, hf, rfl⟩ := readInfix_eq_ok_iff.mp h
      exact .between hf ((ihl hfl).mp hleft) ((ihr hfr).mp hright)
    · intro h
      cases h with
      | between hf hleft hright =>
        rw [readGrouping, (ihl hfl).mpr hleft, ok_bind, (ihr hfr).mpr hright]
        exact readInfix_eq_ok_iff.mpr ⟨_, hf, rfl⟩

theorem isReadable_before (h : (nodeLevel node).isBefore) :
    IsReadable parts node ↔ ∃ f, Prefixes node f := by
  unfold IsReadable
  cases hlevel : nodeLevel node with
  | before => exact Iff.rfl
  | _ => rw [hlevel] at h; cases h

theorem isReadable_behind (h : (nodeLevel node).isBehind) :
    IsReadable parts node ↔ ∃ f, Suffixes parts node f := by
  unfold IsReadable
  cases hlevel : nodeLevel node with
  | behind => exact Iff.rfl
  | _ => rw [hlevel] at h; cases h

theorem isReadable_between (h : (nodeLevel node).isBetween) :
    IsReadable parts node ↔ ∃ f, Joins parts node f := by
  unfold IsReadable
  cases hlevel : nodeLevel node with
  | leftToRight | rightToLeft => exact Iff.rfl
  | _ => rw [hlevel] at h; cases h

/-- A grouping stands for a tree exactly when each of its parts can be read for itself. -/
theorem exists_stands_iff {g : Grouping Node} (hfits : g.Fits nodeLevel) :
    (∃ e, Stands parts g e) ↔ ∀ item ∈ g.items, IsReadable parts item := by
  induction g with
  | leaf node =>
    have hoperand : nodeLevel node = .operand := hfits
    simp only [Grouping.items, List.mem_singleton, forall_eq, IsReadable, hoperand]
    constructor
    · rintro ⟨e, h⟩
      cases h with
      | leaf h => exact ⟨e, h⟩
    · rintro ⟨e, h⟩
      exact ⟨e, .leaf h⟩
  | before node g ih =>
    obtain ⟨hbefore, hfits⟩ := hfits
    simp only [Grouping.items, List.forall_mem_cons, ← ih hfits, isReadable_before hbefore]
    constructor
    · rintro ⟨_, h⟩
      cases h with
      | before hf h => exact ⟨⟨_, hf⟩, _, h⟩
    · rintro ⟨⟨f, hf⟩, operand, h⟩
      exact ⟨_, .before hf h⟩
  | behind g node ih =>
    obtain ⟨hbehind, hfits⟩ := hfits
    simp only [Grouping.items, List.forall_mem_append, List.mem_singleton, forall_eq, ← ih hfits,
      isReadable_behind hbehind]
    constructor
    · rintro ⟨_, h⟩
      cases h with
      | behind hf h => exact ⟨⟨_, h⟩, _, hf⟩
    · rintro ⟨⟨operand, h⟩, f, hf⟩
      exact ⟨_, .behind hf h⟩
  | between l node r ihl ihr =>
    obtain ⟨hbetween, hfl, hfr⟩ := hfits
    simp only [Grouping.items, List.forall_mem_append, List.forall_mem_cons, ← ihl hfl, ← ihr hfr,
      isReadable_between hbetween]
    constructor
    · rintro ⟨_, h⟩
      cases h with
      | between hf hl hr => exact ⟨⟨_, hl⟩, ⟨_, hf⟩, _, hr⟩
    · rintro ⟨⟨left, hl⟩, ⟨f, hf⟩, right, hr⟩
      exact ⟨_, .between hf hl hr⟩

end

/-- An operator expression is read as the tree of the one grouping of its parts that keeps them in
order and meets the spine conditions of the levels, and it is read whenever its parts are. -/
theorem operatorExpression_grouping (parts : Readers) (node : Node)
    (hrun : IsRun nodeLevel node.children) :
    ∃ g : Grouping Node,
      g.items = node.children ∧ g.Fits nodeLevel ∧ g.Ordered nodeLevel ∧
      (∀ e, readOperatorExpression parts node = .ok e ↔ Stands parts g e) ∧
      ((∃ e, readOperatorExpression parts node = .ok e) ↔
        ∀ item ∈ node.children, IsReadable parts item) ∧
      ∀ g' : Grouping Node,
        g'.items = node.children → g'.Fits nodeLevel → g'.Ordered nodeLevel → g' = g := by
  obtain ⟨g, hg⟩ := hrun.grouped []
  obtain ⟨hitems, hfits, hordered⟩ := Precedence.group_sound hg
  have hread : readOperatorExpression parts node = readGrouping parts g := by
    have hlevels : (fun item : Node => roleOf item.rule) = nodeLevel :=
      funext fun item => roleOf_eq_levelOf item.rule
    have hgroup : Precedence.group nodeLevel node.children = some g := hg
    rw [readOperatorExpression, hlevels, hgroup]
  refine ⟨g, hitems, hfits, hordered, ?_, ?_, ?_⟩
  · intro e
    rw [hread]
    exact readGrouping_eq_ok_iff hfits
  · rw [hread, ← hitems, ← exists_stands_iff hfits]
    exact exists_congr fun e => readGrouping_eq_ok_iff hfits
  · intro g' hitems' hfits' hordered'
    exact Precedence.group_unique hg hitems' hfits' hordered'

/-- The parts of `x * *a + b`: a loose prefix operator inside a tight infix one. -/
def spreadInProduct : Node :=
  .node .operatorExpression ⟨0, 10⟩ [
    .token .simpleIdentifier ⟨0, 1⟩ "x", .token .productOperator ⟨2, 3⟩ "*",
    .token .spreadOperator ⟨4, 5⟩ "*", .token .simpleIdentifier ⟨5, 6⟩ "a",
    .token .sumOperator ⟨7, 8⟩ "+", .token .simpleIdentifier ⟨9, 10⟩ "b"]

/-- The spread takes the sum, and the product takes the spread. -/
def spreadInProductGrouping : Grouping Node :=
  .between (.leaf (.token .simpleIdentifier ⟨0, 1⟩ "x")) (.token .productOperator ⟨2, 3⟩ "*")
    (.before (.token .spreadOperator ⟨4, 5⟩ "*")
      (.between (.leaf (.token .simpleIdentifier ⟨5, 6⟩ "a")) (.token .sumOperator ⟨7, 8⟩ "+")
        (.leaf (.token .simpleIdentifier ⟨9, 10⟩ "b"))))

def spreadInProductRead : Expression :=
  .binary (.product .times) (.identifier "x")
    (.spread (.binary (.sum .plus) (.identifier "a") (.identifier "b")))

theorem spreadInProduct_isRun : IsRun nodeLevel spreadInProduct.children := by
  refine .joined ⟨[], _, [], rfl, by simp, by decide, by simp⟩ (by decide) ?_
  refine .joined ⟨[_], _, [], rfl, by simp; decide, by decide, by simp⟩ (by decide) ?_
  exact .operand ⟨[], _, [], rfl, by simp, by decide, by simp⟩

theorem spreadInProduct_stands : Stands .none spreadInProductGrouping spreadInProductRead :=
  .between (@Joins.binary .none _ (.product .times) rfl (.inr rfl)) (.leaf rfl)
    (.before (.spread rfl)
      (.between (@Joins.binary .none _ (.sum .plus) rfl (.inr rfl)) (.leaf rfl) (.leaf rfl)))

theorem spreadInProduct_grouping :
    IsRun nodeLevel spreadInProduct.children ∧
    Stands .none spreadInProductGrouping spreadInProductRead ∧
    readOperatorExpression .none spreadInProduct = .ok spreadInProductRead ∧
    (∀ item ∈ spreadInProduct.children, IsReadable .none item) ∧
    ∀ g : Grouping Node, g.items = spreadInProduct.children → g.Fits nodeLevel →
      g.Ordered nodeLevel → g = spreadInProductGrouping := by
  obtain ⟨g, -, -, -, hread, hreadable, hunique⟩ :=
    operatorExpression_grouping .none spreadInProduct spreadInProduct_isRun
  obtain rfl : spreadInProductGrouping = g := by
    refine hunique _ rfl ?_ ?_
    · simp only [Grouping.Fits, spreadInProductGrouping]
      decide
    · simp only [Grouping.Ordered, Grouping.Yields, Grouping.Clings, Grouping.leftSpine,
        Grouping.rightSpine, spreadInProductGrouping]
      decide
  have hresult := (hread _).mpr spreadInProduct_stands
  exact ⟨spreadInProduct_isRun, spreadInProduct_stands, hresult, hreadable.mp ⟨_, hresult⟩, hunique⟩

end QuovaKotlin.Reading

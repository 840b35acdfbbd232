import QuovaKotlin.Kotlin.Code
import QuovaKotlin.Proofs.OperatorSymbols
import QuovaKotlin.Proofs.Precedence
import QuovaKotlin.Proofs.Reading.Expressions
import QuovaKotlin.Proofs.Terms
import QuovaKotlin.Reading.File

/-!
# Plain operator expressions

Expressions made of identifiers, numbers, parentheses, signs and the infix operators that Kotlin
has as well. Reading gives them well grouped: no operand is looser than the operator around it, and
the right operand of an infix operator is tighter. The levels of the operators and the priorities
of expressions are two tables, and this is where they are found to agree.
-/

set_option autoImplicit false

namespace QuovaKotlin.Ast

/-- The numeric literals. -/
def Literal.IsNumeric : Literal → Prop
  | integer _ | long _ | real _ => True
  | _ => False

/-- The prefix operators that Kotlin writes as the source does. -/
def PrefixOperator.IsPlain : PrefixOperator → Prop
  | plus | minus | increment | decrement | not => True
  | complement | reference => False

/-- The infix operators that Kotlin has as well: all but the three-way comparison. -/
def BinaryOperator.IsPlain : BinaryOperator → Prop
  | spaceship => False
  | _ => True

/-- Identifiers, numbers, parentheses, signs and infix operators, and nothing else. -/
inductive Expression.Plain : Expression → Prop
  | literal {value : Literal} : value.IsNumeric → Plain (.literal value)
  | identifier (name : String) : Plain (.identifier name)
  | parenthesized {inner : Expression} : Plain inner → Plain (.parenthesized inner)
  | prefixed {operator : PrefixOperator} {operand : Expression} :
      operator.IsPlain → Plain operand → Plain (.prefixed operator operand)
  | binary {operator : BinaryOperator} {left right : Expression} :
      operator.IsPlain → Plain left → Plain right → Plain (.binary operator left right)

/-- A plain expression as reading gives it: well grouped, and made of lexemes. -/
inductive Expression.Sound : Expression → Prop
  | literal {value : Literal} : value.IsNumeric → Lexical.IsTerm value.kotlin.toList →
      Sound (.literal value)
  | identifier {name : String} : Lexical.IsTerm name.toList → Sound (.identifier name)
  | parenthesized {inner : Expression} : Sound inner → Sound (.parenthesized inner)
  | prefixed {operator : PrefixOperator} {operand : Expression} :
      operator.IsPlain → operand.priority ≤ Priority.prefixed → Sound operand →
      Sound (.prefixed operator operand)
  | binary {operator : BinaryOperator} {left right : Expression} :
      operator.IsPlain → left.priority ≤ operator.priority → right.priority < operator.priority →
      Sound left → Sound right → Sound (.binary operator left right)

theorem BinaryOperator.IsPlain.ne_spaceship {operator : BinaryOperator} (h : operator.IsPlain) :
    operator ≠ .spaceship := by
  rintro rfl
  exact h

theorem BinaryOperator.prefixed_lt_priority (operator : BinaryOperator) :
    Priority.prefixed < operator.priority := by
  cases operator <;> simp only [BinaryOperator.priority] <;> decide

end QuovaKotlin.Ast

namespace QuovaKotlin.Reading

open Ast Peg
open Precedence (Grouping)
open Source (Rule)

variable {parts : Readers}

theorem readBinaryOperator_rule {node : Node} {operator : BinaryOperator}
    (h : readBinaryOperator node = .ok operator) : node.rule = operator.rule :=
  (readBinaryOperator_eq_ok_iff.mp h).1

/-- The power of an infix operator falls by ten where its priority grows by one. -/
theorem roleOf_binary (operator : BinaryOperator) :
    ∃ power : Nat, roleOf operator.rule = .leftToRight power ∧
      (power : Int) = 200 - 10 * operator.priority := by
  cases operator <;> exact ⟨_, rfl, rfl⟩

theorem sized?_eq_construct {element : ElementType} {sizes : List Expression} {type : TypeRef}
    {array : Expression} (h : element.sized? sizes = some (type, array)) :
    ∃ type arguments, array = .construct type arguments := by
  unfold ElementType.sized? at h
  split at h
  · cases h
  · cases element with
    | primitive | user =>
      obtain ⟨-, rfl⟩ := Prod.mk.inj (Option.some.inj h)
      exact ⟨_, _, rfl⟩
  · obtain ⟨⟨inner, array'⟩, -, h⟩ := Option.bind_eq_some_iff.mp h
    obtain ⟨-, rfl⟩ := Prod.mk.inj (Option.some.inj h)
    exact ⟨_, _, rfl⟩

theorem not_plain_construct {node : Node} {e : Expression}
    (h : readConstructorInvocation parts node = .ok e) : ¬ e.Plain := by
  obtain ⟨element, -, h⟩ := bind_eq_ok h
  obtain ⟨sizes, -, h⟩ := bind_eq_ok h
  intro hplain
  split at h
  · next hsized =>
    obtain ⟨_, _, rfl⟩ := sized?_eq_construct hsized
    cases h
    cases hplain
  · dsimp only at h
    split at h
    · obtain ⟨_, -, rfl⟩ := map_eq_ok h
      cases hplain
    · obtain ⟨_, -, h⟩ := bind_eq_ok h
      cases h
      cases hplain

/-- A plain literal is a number, and its text is that of its token. -/
theorem readLiteral_plain {node : Node} {e : Expression} (h : readLiteral parts node = .ok e)
    (hplain : e.Plain) :
    ∃ value : Literal, e = .literal value ∧ value.kotlin = node.text ∧
      node.rule ∈ [Rule.integerLiteral, .longLiteral, .realLiteral] := by
  unfold readLiteral at h
  split at h
  · cases h; cases hplain; contradiction
  · cases h; cases hplain; contradiction
  · cases h; cases hplain; contradiction
  · next hrule => cases h; exact ⟨_, rfl, rfl, by simp [hrule]⟩
  · next hrule => cases h; exact ⟨_, rfl, rfl, by simp [hrule]⟩
  · next hrule => cases h; exact ⟨_, rfl, rfl, by simp [hrule]⟩
  · cases h; cases hplain; contradiction
  · cases h; cases hplain; contradiction
  · cases h; cases hplain; contradiction
  · cases h; cases hplain; contradiction
  · obtain ⟨_, -, rfl⟩ := map_eq_ok h
    cases hplain; contradiction
  · obtain ⟨_, -, h⟩ := bind_eq_ok h
    split at h
    · obtain ⟨_, -, rfl⟩ := map_eq_ok h
      cases hplain
    · obtain ⟨_, -, rfl⟩ := map_eq_ok h
      cases hplain
  · obtain ⟨_, -, h⟩ := bind_eq_ok h
    split at h <;> cases h <;> cases hplain
  · cases h

/-- A plain operand is a number, an identifier or something in parentheses. -/
inductive PlainOperand (parts : Readers) (node : Node) : Expression → Prop
  | literal {child : Node} {value : Literal} : node.rule = .literal → child ∈ node.children →
      child.rule ∈ [Rule.integerLiteral, .longLiteral, .realLiteral] →
      value.kotlin = child.text → PlainOperand parts node (.literal value)
  | parenthesized {inner : Expression} : node.rule = .expression →
      parts.expression node = .ok inner → inner.Plain →
      PlainOperand parts node (.parenthesized inner)
  | identifier : node.rule = .simpleIdentifier → PlainOperand parts node (.identifier node.text)

theorem readOperand_plain {node : Node} {e : Expression} (h : readOperand parts node = .ok e)
    (hplain : e.Plain) : PlainOperand parts node e := by
  unfold readOperand at h
  split at h
  · next hrule =>
    obtain ⟨child, hfirst, h⟩ := bind_eq_ok h
    obtain ⟨value, rfl, htext, hmem⟩ := readLiteral_plain h hplain
    exact .literal hrule (of_first hfirst) hmem htext
  · exact absurd hplain (not_plain_construct h)
  · obtain ⟨_, -, h⟩ := bind_eq_ok h
    obtain ⟨_, -, h⟩ := bind_eq_ok h
    obtain ⟨_, -, h⟩ := bind_eq_ok h
    cases h
    cases hplain
  · obtain ⟨_, -, h⟩ := bind_eq_ok h
    obtain ⟨_, -, h⟩ := bind_eq_ok h
    cases h
    cases hplain
  · next hrule =>
    obtain ⟨inner, hinner, rfl⟩ := map_eq_ok h
    cases hplain with
    | parenthesized hplain => exact .parenthesized hrule hinner hplain
  · next hrule =>
    cases h
    exact .identifier hrule
  · cases h

/-- A grouping as a plain expression is read from it. -/
inductive ReadsPlain (parts : Readers) : Grouping Node → Expression → Prop
  | leaf {node : Node} {e : Expression} :
      PlainOperand parts node e → ReadsPlain parts (.leaf node) e
  | before {node : Node} {g : Grouping Node} {operator : PrefixOperator} {operand : Expression} :
      node.rule ≠ .spreadOperator → meaning PrefixOperator.ofSymbol? node = .ok operator →
      operator.IsPlain → ReadsPlain parts g operand →
      ReadsPlain parts (.before node g) (.prefixed operator operand)
  | between {node : Node} {l r : Grouping Node} {operator : BinaryOperator}
      {left right : Expression} :
      readBinaryOperator node = .ok operator → operator.IsPlain → ReadsPlain parts l left →
      ReadsPlain parts r right → ReadsPlain parts (.between l node r) (.binary operator left right)

theorem readsPlain_of_readGrouping {g : Grouping Node} {e : Expression}
    (h : readGrouping parts g = .ok e) (hplain : e.Plain) : ReadsPlain parts g e := by
  induction g generalizing e with
  | leaf node => exact .leaf (readOperand_plain h hplain)
  | before node g ih =>
    obtain ⟨operand, hoperand, h⟩ := bind_eq_ok h
    unfold readPrefixed at h
    split at h
    · cases h
      cases hplain
    · next hrule =>
      obtain ⟨operator, hoperator, h⟩ := bind_eq_ok h
      cases h
      cases hplain with
      | prefixed hop hplain => exact .before hrule hoperator hop (ih hoperand hplain)
  | behind g node ih =>
    obtain ⟨operand, -, h⟩ := bind_eq_ok h
    unfold readSuffixed at h
    split at h
    · obtain ⟨_, -, h⟩ := bind_eq_ok h
      cases h
      cases hplain
    · obtain ⟨_, -, h⟩ := bind_eq_ok h
      cases h
      cases hplain
  | between l node r ihl ihr =>
    obtain ⟨left, hleft, h⟩ := bind_eq_ok h
    obtain ⟨right, hright, h⟩ := bind_eq_ok h
    unfold readInfix at h
    split at h
    · obtain ⟨_, -, h⟩ := bind_eq_ok h
      cases h
      cases hplain
    · obtain ⟨_, -, h⟩ := bind_eq_ok h
      cases h
      cases hplain
    · obtain ⟨operator, hoperator, h⟩ := bind_eq_ok h
      cases h
      cases hplain with
      | binary hop hl hr => exact .between hoperator hop (ihl hleft hl) (ihr hright hr)

theorem nodeRole_binary {node : Node} {operator : BinaryOperator}
    (h : readBinaryOperator node = .ok operator) :
    ∃ power : Nat, nodeRole node = .leftToRight power ∧
      (power : Int) = 200 - 10 * operator.priority := by
  rw [nodeRole, readBinaryOperator_rule h]
  exact roleOf_binary operator

theorem PlainOperand.priority_eq {node : Node} {e : Expression} (h : PlainOperand parts node e) :
    e.priority = Priority.primary := by
  cases h <;> rfl

namespace ReadsPlain

variable {g : Grouping Node} {e : Expression}

/-- Only an infix operator can make an expression looser than a prefix operator does. -/
theorem priority_cases (h : ReadsPlain parts g e) :
    e.priority ≤ Priority.prefixed ∨
      ∃ l node r power, g = .between l node r ∧ nodeRole node = .leftToRight power ∧
        (power : Int) = 200 - 10 * e.priority := by
  cases h with
  | leaf h =>
    left
    rw [h.priority_eq]
    decide
  | before => exact .inl (Int.le_refl _)
  | between hoperator =>
    obtain ⟨power, hrole, hpower⟩ := nodeRole_binary hoperator
    exact .inr ⟨_, _, _, power, rfl, hrole, hpower⟩

theorem priority_of_yields {power : Nat} (h : ReadsPlain parts g e)
    (hyields : g.Yields nodeRole power) :
    e.priority ≤ Priority.prefixed ∨ 10 * e.priority ≤ 200 - (power : Int) := by
  rcases h.priority_cases with hle | ⟨l, node, r, own, rfl, hrole, hown⟩
  · exact .inl hle
  · have hbinding := hyields node List.mem_cons_self
    rw [hrole] at hbinding
    change power ≤ own at hbinding
    right
    omega

theorem priority_of_clings {binding : Nat} (h : ReadsPlain parts g e)
    (hclings : g.Clings nodeRole binding) :
    e.priority ≤ Priority.prefixed ∨ 10 * e.priority < 200 - (binding : Int) := by
  rcases h.priority_cases with hle | ⟨l, node, r, own, rfl, hrole, hown⟩
  · exact .inl hle
  · have hpower := hclings node List.mem_cons_self
    rw [hrole] at hpower
    change binding < own at hpower
    right
    omega

end ReadsPlain

/-- The readers of the parts give sound expressions where they give plain ones. -/
def Readers.KeepSound (parts : Readers) : Prop :=
  ∀ node e, Source.grammar.Makes node → parts.expression node = .ok e → e.Plain → e.Sound

theorem isTerm_of_rule {node : Node} (hmade : Source.grammar.Makes node)
    (hrule : node.rule ∈ [Rule.integerLiteral, .longLiteral, .realLiteral, .simpleIdentifier]) :
    Lexical.IsTerm node.text.toList := by
  have hkind : Source.grammar.kind node.rule = .atomic := by
    simp only [List.mem_cons, List.not_mem_nil, or_false] at hrule
    rcases hrule with hrule | hrule | hrule | hrule <;> rw [hrule] <;> rfl
  obtain ⟨w, htext, hreads, -⟩ := hmade.reads hkind
  rw [htext, String.toList_ofList]
  simp only [List.mem_cons, List.not_mem_nil, or_false] at hrule
  rcases hrule with hrule | hrule | hrule | hrule <;> rw [hrule] at hreads
  · exact Lexical.isTerm_integerLiteral hreads
  · exact Lexical.isTerm_longLiteral hreads
  · exact Lexical.isTerm_realLiteral hreads
  · exact Lexical.isTerm_simpleIdentifier hreads

theorem PlainOperand.sound {node : Node} {e : Expression} (h : PlainOperand parts node e)
    (hplain : e.Plain) (hparts : parts.KeepSound) (hmade : Source.grammar.Makes node) :
    e.Sound := by
  cases h with
  | literal _ hchild hrule htext =>
    cases hplain with
    | literal hnumeric =>
      refine .literal hnumeric ?_
      rw [htext]
      refine isTerm_of_rule (hmade.children _ hchild) ?_
      exact List.mem_append_left [Rule.simpleIdentifier] hrule
  | parenthesized _ hinner hinnerPlain =>
    exact .parenthesized (hparts _ _ hmade hinner hinnerPlain)
  | identifier hrule => exact .identifier (isTerm_of_rule hmade (by simp [hrule]))

/-- The spine conditions on the operators give the conditions on the priorities. -/
theorem ReadsPlain.sound {g : Grouping Node} {e : Expression} (h : ReadsPlain parts g e)
    (hplain : e.Plain) (hfits : g.Fits nodeRole) (hordered : g.Ordered nodeRole)
    (hparts : parts.KeepSound) (hmade : ∀ node ∈ g.items, Source.grammar.Makes node) :
    e.Sound := by
  induction h with
  | leaf h => exact h.sound hplain hparts (hmade _ List.mem_cons_self)
  | @before node g operator operand hspread _ hop hread ih =>
    obtain ⟨hbefore, hfits⟩ := hfits
    obtain ⟨hclings, hordered⟩ := hordered
    have hrule : node.rule = .prefixOperator := by
      rcases (isBefore_iff node.rule).mp hbefore with hrule | hrule
      · exact absurd hrule hspread
      · exact hrule
    have hbinding : (nodeRole node).binding = 189 := by
      rw [nodeRole, hrule]
      rfl
    rw [hbinding] at hclings
    have hpriority := hread.priority_of_clings hclings
    have hle : operand.priority ≤ Priority.prefixed := by
      simp only [Priority.prefixed] at hpriority ⊢
      omega
    cases hplain with
    | prefixed _ hplain =>
      exact .prefixed hop hle (ih hplain hfits hordered
        fun x hx => hmade x (List.mem_cons_of_mem _ hx))
  | @between node l r operator left right hoperator hop hleft hright ihl ihr =>
    obtain ⟨-, hfl, hfr⟩ := hfits
    obtain ⟨hyields, hclings, hol, hor⟩ := hordered
    obtain ⟨power, hrole, hpower⟩ := nodeRole_binary hoperator
    rw [hrole] at hyields hclings
    have hbound := operator.prefixed_lt_priority
    have hle : left.priority ≤ operator.priority := by
      rcases hleft.priority_of_yields hyields with hle | hle
      · omega
      · change 10 * left.priority ≤ 200 - (power : Int) at hle
        omega
    have hlt : right.priority < operator.priority := by
      rcases hright.priority_of_clings hclings with hlt | hlt
      · omega
      · change 10 * right.priority < 200 - (power : Int) at hlt
        omega
    cases hplain with
    | binary _ hpl hpr =>
      refine .binary hop hle hlt (ihl hpl hfl hol ?_) (ihr hpr hfr hor ?_)
      · exact fun x hx => hmade x (List.mem_append_left _ hx)
      · exact fun x hx => hmade x (List.mem_append_right _ (List.mem_cons_of_mem _ hx))

/-- An operator expression without a comprehension behind it. -/
theorem readExpression_plain {node : Node} {e : Expression} (h : readExpression parts node = .ok e)
    (hplain : e.Plain) :
    ∃ child, node.child? .operatorExpression = some child ∧ node.child? .forSuffix = none ∧
      readOperatorExpression parts child = .ok e := by
  obtain ⟨mapping, hmapping, h⟩ := bind_eq_ok h
  obtain ⟨child, hchild, hmapping⟩ := bind_eq_ok hmapping
  split at h
  · next hnone =>
    cases h
    unfold required at hchild
    split at hchild
    · next hsome =>
      cases hchild
      exact ⟨_, hsome, hnone, hmapping⟩
    · cases hchild
  · obtain ⟨_, -, h⟩ := bind_eq_ok h
    obtain ⟨_, -, h⟩ := bind_eq_ok h
    cases h
    cases hplain

/-- The grouping that an operator expression is read from. -/
theorem readOperatorExpression_plain {node : Node} {e : Expression}
    (h : readOperatorExpression parts node = .ok e) (hplain : e.Plain) :
    ∃ g : Grouping Node, g.items = node.children ∧ g.Fits nodeRole ∧ g.Ordered nodeRole ∧
      ReadsPlain parts g e := by
  unfold readOperatorExpression at h
  split at h
  · next g hg =>
    obtain ⟨hitems, hfits, hordered⟩ := Precedence.group_sound hg
    exact ⟨g, hitems, hfits, hordered, readsPlain_of_readGrouping h hplain⟩
  · cases h

theorem keepSound_ofHeight (height : Nat) : (Readers.ofHeight height).KeepSound := by
  induction height with
  | zero =>
    intro node e _ h
    cases h
  | succ height ih =>
    intro node e hmade h hplain
    obtain ⟨child, hchild, -, h⟩ := readExpression_plain h hplain
    obtain ⟨g, hitems, hfits, hordered, hread⟩ := readOperatorExpression_plain h hplain
    have hmem := (mem_of_child? hchild).1
    refine hread.sound hplain hfits hordered ih ?_
    rw [hitems]
    exact (hmade.children _ hmem).children

end QuovaKotlin.Reading

import QuovaKotlin.Proofs.KotlinGrouping
import QuovaKotlin.Proofs.Reading.FileOrigins

/-!
# Printed parentheses keep the tree

Rendering decides on the parentheses of an operand by comparing two priorities, and sees nothing of
the rest of the text. This is enough: grouping the printed tokens by the levels of the source gives
the expression back, up to parentheses. The one thing that a comparison of priorities cannot see is
on which side of its operator an operand stands, so no infix expression may be the right operand of
another one of its class. No expression that is read is of that kind.
-/

set_option autoImplicit false

namespace QuovaKotlin.Regrouping

open Ast
open Precedence (Grouping Role)
open Reading (roleOf)

/-- A row of printed tokens without parentheses. What stood in parentheses is one operand of it. -/
inductive Item
  | operand (value : Expression)
  | sign (operator : PrefixOperator)
  | joint (operator : BinaryOperator)

/-- Each printed symbol stands on the level of its class. -/
def Item.role : Item → Role
  | operand _ => .operand
  | sign _ => roleOf .prefixOperator
  | joint operator => roleOf operator.rule

/-- The infix operators that are printed with a symbol. -/
def infixOperators : List BinaryOperator := [
  .product .times, .product .divide, .product .modulo, .sum .plus, .sum .minus, .range, .elvis,
  .check .inside, .check .notInside, .check .ofType, .check .notOfType,
  .shift .left, .shift .right, .shift .unsignedRight, .bitAnd, .bitXor, .bitOr,
  .comparison .less, .comparison .lessEqual, .comparison .greater, .comparison .greaterEqual,
  .equality .equal, .equality .notEqual, .equality .identical, .equality .notIdentical,
  .conjunction, .disjunction]

def infixOf? (symbol : String) : Option BinaryOperator :=
  infixOperators.find? (·.symbol = symbol)

/-- A token that starts with a digit is a number, any other word is a name. -/
def leafOf (token : String) : Expression :=
  if token.toList.head?.any Char.isDigit then .literal (.integer token) else .identifier token

/-- The expression of a grouped row. -/
def treeOf : Grouping Item → Option Expression
  | .leaf (.operand value) => some value
  | .before (.sign operator) operand => (treeOf operand).map (.prefixed operator)
  | .between left (.joint operator) right => do
    return .binary operator (← treeOf left) (← treeOf right)
  | _ => none

def rowTree (row : List Item) : Option Expression :=
  (Precedence.group Item.role row).bind treeOf

/-- The rows of the source: what stands in parentheses keeps them. There are no calls. -/
def dialect : Dialect Item Expression where
  term text := .operand (leafOf text)
  enclosed value := .operand (.parenthesized value)
  sign? symbol := (PrefixOperator.ofSymbol? symbol).map .sign
  joint? symbol := (infixOf? symbol).map .joint
  call? _ := none
  row? := rowTree

/-- The expression that the levels of the source give a row of printed tokens. -/
def tree? (tokens : List String) : Option Expression :=
  dialect.read? tokens

end QuovaKotlin.Regrouping

namespace QuovaKotlin.Ast

open Lexical (isWordChar IsTerm)

/-- A word that does not start like a number. -/
def IsIdentifier (name : String) : Prop :=
  ∃ x w, name.toList = x :: w ∧ ¬ x.isDigit ∧ (x :: w).all isWordChar

namespace Expression

/-- Identifiers, integers, parentheses, signs and the infix operators that are printed with a
symbol, grouped in any way. -/
inductive Elementary : Expression → Prop
  | integer {text : String} : Source.grammar.Reads .integerLiteral text.toList →
      Elementary (.literal (.integer text))
  | identifier {name : String} : IsIdentifier name → Elementary (.identifier name)
  | parenthesized {inner : Expression} : Elementary inner → Elementary (.parenthesized inner)
  | prefixed {operator : PrefixOperator} {operand : Expression} :
      operator.IsPlain → Elementary operand → Elementary (.prefixed operator operand)
  | binary {operator : BinaryOperator} {left right : Expression} :
      operator.IsPlain → Elementary left → Elementary right →
      Elementary (.binary operator left right)

/-- Nowhere in the expression is the right operand of an infix operator an infix expression of the
same class. -/
def Apart (e : Expression) : Prop :=
  ∀ operator left right, Part.Within (.expression (.binary operator left right)) (.expression e) →
    ∀ o ∈ right.operator?, o.rule ≠ operator.rule

/-- The expression without its parentheses. -/
def bare : Expression → Expression
  | .parenthesized inner => inner.bare
  | .prefixed operator operand => .prefixed operator operand.bare
  | .binary operator left right => .binary operator left.bare right.bare
  | e => e

theorem Apart.part {e part : Expression} (h : e.Apart) (hmem : .expression part ∈ e.parts) :
    part.Apart :=
  fun operator left right hwithin => h operator left right (.child hmem hwithin)

/-- An operand in parentheses, if it needs them. -/
def enclosed (needed : Bool) (e : Expression) : Expression :=
  if needed then .parenthesized e else e

/-- The expression with all parentheses that its text has. -/
def bracketed : Expression → Expression
  | .parenthesized inner => .parenthesized inner.bracketed
  | .prefixed operator operand =>
    .prefixed operator (enclosed
      (operand.priority > Priority.prefixed || operator.isSign && operand.isPrefixed)
      operand.bracketed)
  | .binary operator left right =>
    .binary operator (enclosed (left.priority > operator.priority) left.bracketed)
      (enclosed (right.priority > operator.priority) right.bracketed)
  | e => e

theorem priority_bracketed (e : Expression) : e.bracketed.priority = e.priority := by
  cases e <;> rfl

theorem isPrefixed_bracketed (e : Expression) : e.bracketed.isPrefixed = e.isPrefixed := by
  cases e <;> rfl

theorem bare_enclosed (needed : Bool) (e : Expression) : (enclosed needed e).bare = e.bare := by
  cases needed <;> rfl

theorem bare_bracketed {e : Expression} (h : e.Elementary) : e.bracketed.bare = e.bare := by
  induction h with
  | integer _ | identifier _ => rfl
  | parenthesized _ ih => exact ih
  | prefixed _ _ ih => rw [bracketed, bare, bare, bare_enclosed, ih]
  | binary _ _ _ ihl ihr => rw [bracketed, bare, bare, bare_enclosed, bare_enclosed, ihl, ihr]

/-- Parentheses that are there already are not printed twice. -/
theorem under_enclosed {e shown : Expression} {enclosing : Int}
    (hpriority : shown.priority = e.priority) (hkotlin : shown.kotlin = e.kotlin)
    (hle : Priority.primary ≤ enclosing) :
    Rendered.under ⟨(enclosed (e.priority > enclosing) shown).priority,
        (enclosed (e.priority > enclosing) shown).kotlin⟩ enclosing =
      Rendered.under ⟨e.priority, e.kotlin⟩ enclosing := by
  by_cases h : e.priority > enclosing
  · have htext : (parenthesized shown).kotlin = "(" ++ shown.kotlin ++ ")" := rfl
    rw [decide_eq_true h, enclosed, if_pos rfl, Rendered.under_eq hle, htext, hkotlin,
      Rendered.under, if_pos h]
  · rw [decide_eq_false h, enclosed, if_neg Bool.false_ne_true, hpriority, hkotlin]

end Expression

/-- How two operands are joined depends on how each stands under the operator. -/
theorem Rendered.join_congr {operator : BinaryOperator} (hplain : operator.IsPlain)
    {l l' r r' : Rendered} (hl : l.under operator.priority = l'.under operator.priority)
    (hr : r.under operator.priority = r'.under operator.priority) :
    (Rendered.join operator l r).text = (Rendered.join operator l' r').text := by
  cases operator with
  | spaceship => exact hplain.elim
  | range => exact congrArg₂ (· ++ ".." ++ ·) hl hr
  | product o | sum o | check o | shift o | comparison o | equality o =>
    exact congrArg₂ (· ++ " " ++ BinaryOperator.symbol _ ++ " " ++ ·) hl hr
  | elvis | bitAnd | bitXor | bitOr | conjunction | disjunction =>
    exact congrArg₂ (· ++ " " ++ BinaryOperator.symbol _ ++ " " ++ ·) hl hr

/-- Where no two signs meet, a prefix operator stands in front of its operand as it is. -/
theorem PrefixOperator.before_under {operator : PrefixOperator} (hplain : operator.IsPlain)
    (r : Rendered) {isPrefixed : Bool} (h : (operator.isSign && isPrefixed) = false) :
    operator.before r isPrefixed = operator.symbol ++ r.under Priority.prefixed := by
  cases operator with
  | plus | minus =>
    obtain rfl : isPrefixed = false := h
    rfl
  | increment | decrement | not => rfl
  | complement | reference => exact hplain.elim

/-- In front of another prefix operator a sign takes parentheses. -/
theorem PrefixOperator.before_prefixed {operator : PrefixOperator} (h : operator.isSign)
    (r : Rendered) : operator.before r true = operator.symbol ++ "(" ++ r.text ++ ")" := by
  cases operator with
  | plus | minus => rfl
  | increment | decrement | not | complement | reference => cases h

theorem BinaryOperator.primary_lt_priority (operator : BinaryOperator) :
    Priority.primary < operator.priority :=
  Int.lt_trans (by decide) operator.prefixed_lt_priority

/-- The class of an infix operator is found in the table of levels by its priority. -/
theorem BinaryOperator.level_rule (operator : BinaryOperator) :
    (Reading.levels[19 - operator.priority.toNat]?).map (·.1) = some operator.rule := by
  cases operator <;> rfl

theorem BinaryOperator.rule_eq_of_priority {operator other : BinaryOperator}
    (h : operator.priority = other.priority) : operator.rule = other.rule := by
  have hrule := operator.level_rule
  rw [h, other.level_rule] at hrule
  exact (Option.some.inj hrule).symm

namespace Expression

theorem kotlin_prefixed_bracketed {operator : PrefixOperator} {operand : Expression}
    (hplain : operator.IsPlain) (ih : operand.bracketed.kotlin = operand.kotlin) :
    (prefixed operator operand).bracketed.kotlin = (prefixed operator operand).kotlin := by
  have hprinted (e : Expression) : (prefixed operator e).kotlin =
      operator.before ⟨e.priority, e.kotlin⟩ e.isPrefixed := rfl
  rw [bracketed, hprinted, hprinted]
  by_cases hsigns : (operator.isSign && operand.isPrefixed) = true
  · -- Two signs: the parentheses that keep them apart are in the tree now.
    obtain ⟨hsign, hoperand⟩ := Bool.and_eq_true_iff.mp hsigns
    have hkotlin : (parenthesized operand.bracketed).kotlin = "(" ++ operand.kotlin ++ ")" :=
      congrArg (fun text => "(" ++ text ++ ")") ih
    have hfree : (operator.isSign && (parenthesized operand.bracketed).isPrefixed) = false :=
      Bool.and_false _
    rw [hsigns, Bool.or_true, enclosed, if_pos rfl, PrefixOperator.before_under hplain _ hfree,
      hkotlin, Rendered.under_eq (show Priority.primary ≤ Priority.prefixed by decide), hoperand,
      PrefixOperator.before_prefixed hsign]
    simp only [String.append_assoc]
  · rw [Bool.not_eq_true] at hsigns
    rw [hsigns, Bool.or_false, PrefixOperator.before_under hplain _ hsigns,
      PrefixOperator.before_under hplain,
      under_enclosed (priority_bracketed operand) ih (by decide)]
    by_cases h : operand.priority > Priority.prefixed
    · rw [decide_eq_true h]
      exact Bool.and_false _
    · rw [decide_eq_false h, enclosed, if_neg Bool.false_ne_true, isPrefixed_bracketed, hsigns]

/-- The parentheses that are made explicit are those of the text. -/
theorem kotlin_bracketed {e : Expression} (h : e.Elementary) : e.bracketed.kotlin = e.kotlin := by
  induction h with
  | integer _ | identifier _ => rfl
  | parenthesized _ ih => exact congrArg (fun text => "(" ++ text ++ ")") ih
  | prefixed hplain _ ih => exact kotlin_prefixed_bracketed hplain ih
  | @binary operator left right hplain _ _ ihl ihr =>
    have hle := Int.le_of_lt operator.primary_lt_priority
    exact Rendered.join_congr hplain (under_enclosed (priority_bracketed left) ihl hle)
      (under_enclosed (priority_bracketed right) ihr hle)

/-- An elementary expression that is printed without further parentheses. -/
inductive Explicit : Expression → Prop
  | integer {text : String} : Source.grammar.Reads .integerLiteral text.toList →
      Explicit (.literal (.integer text))
  | identifier {name : String} : IsIdentifier name → Explicit (.identifier name)
  | parenthesized {inner : Expression} : Explicit inner → Explicit (.parenthesized inner)
  | prefixed {operator : PrefixOperator} {operand : Expression} :
      operator.IsPlain → operand.priority ≤ Priority.prefixed →
      (operator.isSign && operand.isPrefixed) = false → Explicit operand →
      Explicit (.prefixed operator operand)
  | binary {operator : BinaryOperator} {left right : Expression} :
      operator.IsPlain → left.priority ≤ operator.priority → right.priority < operator.priority →
      Explicit left → Explicit right → Explicit (.binary operator left right)

theorem isTerm_identifier {name : String} (h : IsIdentifier name) : IsTerm name.toList := by
  obtain ⟨x, w, hname, hx, hw⟩ := h
  rw [hname]
  exact Lexical.isTerm_word hx hw

theorem Explicit.sound {e : Expression} (h : e.Explicit) : e.Sound := by
  induction h with
  | integer hreads => exact .literal trivial (Lexical.isTerm_integerLiteral hreads)
  | identifier hname => exact .identifier (isTerm_identifier hname)
  | parenthesized _ ih => exact .parenthesized ih
  | prefixed hplain hle _ _ ih => exact .prefixed hplain hle ih
  | binary hplain hl hr _ _ ihl ihr => exact .binary hplain hl hr ihl ihr

theorem Explicit.enclosed {e : Expression} (h : e.Explicit) (needed : Bool) :
    (enclosed needed e).Explicit := by
  cases needed with
  | true => exact .parenthesized h
  | false => exact h

theorem priority_enclosed_le {e shown : Expression} {enclosing : Int} {needed : Bool}
    (hpriority : shown.priority = e.priority) (hle : Priority.primary ≤ enclosing)
    (hneeded : e.priority > enclosing → needed = true) :
    (Expression.enclosed needed shown).priority ≤ enclosing := by
  cases needed with
  | true => exact hle
  | false =>
    have hnot : ¬ e.priority > enclosing := fun h => Bool.false_ne_true (hneeded h)
    show shown.priority ≤ enclosing
    omega

/-- Apart from its class, an operand that needs no parentheses binds tighter than the operator. -/
theorem Elementary.priority_lt {e : Expression} (h : e.Elementary) {operator : BinaryOperator}
    (hle : e.priority ≤ operator.priority) (happart : ∀ o ∈ e.operator?, o.rule ≠ operator.rule) :
    e.priority < operator.priority := by
  cases h with
  | integer _ | identifier _ | parenthesized _ => exact operator.primary_lt_priority
  | prefixed _ _ => exact operator.prefixed_lt_priority
  | @binary o _ _ _ _ _ =>
    exact Int.lt_iff_le_and_ne.mpr
      ⟨hle, fun heq => happart o rfl (BinaryOperator.rule_eq_of_priority heq)⟩

theorem Elementary.explicit_bracketed {e : Expression} (h : e.Elementary) (happart : e.Apart) :
    e.bracketed.Explicit := by
  induction h with
  | integer hreads => exact .integer hreads
  | identifier hname => exact .identifier hname
  | parenthesized _ ih => exact .parenthesized (ih (happart.part List.mem_cons_self))
  | @prefixed operator operand hplain _ ih =>
    have hoperand := ih (happart.part List.mem_cons_self)
    refine .prefixed hplain ?_ ?_ (hoperand.enclosed _)
    · exact priority_enclosed_le (priority_bracketed operand) (by decide) fun h => by simp [h]
    · by_cases hneeded : (decide (operand.priority > Priority.prefixed) ||
          operator.isSign && operand.isPrefixed) = true
      · rw [hneeded]
        exact Bool.and_false _
      · rw [Bool.not_eq_true] at hneeded
        rw [hneeded, Expression.enclosed, if_neg Bool.false_ne_true, isPrefixed_bracketed]
        exact (Bool.or_eq_false_iff.mp hneeded).2
  | @binary operator left right hplain hl hr ihl ihr =>
    have hprimary := operator.primary_lt_priority
    have hleft := ihl (happart.part List.mem_cons_self)
    have hright := ihr (happart.part (List.mem_cons_of_mem _ List.mem_cons_self))
    refine .binary hplain ?_ ?_ (hleft.enclosed _) (hright.enclosed _)
    · exact priority_enclosed_le (priority_bracketed left) (Int.le_of_lt hprimary)
        fun h => decide_eq_true h
    · by_cases h : right.priority > operator.priority
      · rw [decide_eq_true h]
        exact hprimary
      · rw [decide_eq_false h, Expression.enclosed, if_neg Bool.false_ne_true, priority_bracketed]
        exact hr.priority_lt (Int.not_lt.mp h) (happart operator left right (.self _))

end Expression

end QuovaKotlin.Ast

namespace QuovaKotlin.Regrouping

open Ast
open Precedence (Grouping)

/-- The row of an expression, grouped as the expression is. -/
def rowOf : Expression → Grouping Item
  | .prefixed operator operand => .before (.sign operator) (rowOf operand)
  | .binary operator left right => .between (rowOf left) (.joint operator) (rowOf right)
  | e => .leaf (.operand e)

variable {e : Expression}

theorem treeOf_rowOf (h : e.Explicit) : treeOf (rowOf e) = some e := by
  induction h with
  | integer _ | identifier _ | parenthesized _ _ => rfl
  | prefixed _ _ _ _ ih => rw [rowOf, treeOf, ih, Option.map_some]
  | binary _ _ _ _ _ ihl ihr =>
    rw [rowOf, treeOf, ihl, ihr]
    rfl

theorem role_joint (operator : BinaryOperator) :
    ((Item.joint operator).role.power : Int) = 200 - 10 * operator.priority ∧
      (Item.joint operator).role.binding = (Item.joint operator).role.power ∧
      (Item.joint operator).role.isBetween := by
  obtain ⟨power, hrole, hpower⟩ := Reading.roleOf_binary operator
  have hjoint : (Item.joint operator).role = .leftToRight power := hrole
  rw [hjoint]
  exact ⟨hpower, rfl, rfl⟩

theorem fits_rowOf (h : e.Explicit) : (rowOf e).Fits Item.role := by
  induction h with
  | integer _ | identifier _ | parenthesized _ _ => rfl
  | prefixed _ _ _ _ ih => exact ⟨rfl, ih⟩
  | @binary operator _ _ _ _ _ _ _ ihl ihr => exact ⟨(role_joint operator).2.2, ihl, ihr⟩

/-- An operator as loose as the expression or looser leaves its right edge alone. -/
theorem yields_rowOf (h : e.Explicit) (operator : BinaryOperator)
    (hle : e.priority ≤ operator.priority) :
    (rowOf e).Yields Item.role (Item.joint operator).role.power := by
  have hpower := (role_joint operator).1
  induction h with
  | integer _ | identifier _ | parenthesized _ _ => exact fun _ hmem => nomatch hmem
  | prefixed _ hoperand _ _ ih =>
    have hprefixed : (1 : Int) < operator.priority := operator.prefixed_lt_priority
    have hoperand' : Expression.priority _ ≤ (1 : Int) := hoperand
    intro x hx
    rcases List.mem_cons.mp hx with rfl | hx
    · show _ ≤ 189
      omega
    · exact ih (by omega) x hx
  | @binary inner left right _ _ hr _ _ _ ihr =>
    obtain ⟨hinner, hbinding, -⟩ := role_joint inner
    have hle' : inner.priority ≤ operator.priority := hle
    intro x hx
    rcases List.mem_cons.mp hx with rfl | hx
    · rw [hbinding]
      omega
    · exact ihr (by omega) x hx

/-- An operator that is looser than the expression leaves its left edge alone. -/
theorem clings_rowOf (h : e.Explicit) (operator : BinaryOperator)
    (hlt : e.priority < operator.priority) :
    (rowOf e).Clings Item.role (Item.joint operator).role.binding := by
  obtain ⟨hpower, hbinding, -⟩ := role_joint operator
  rw [hbinding]
  induction h with
  | integer _ | identifier _ | parenthesized _ _ | prefixed _ _ _ _ _ =>
    exact fun _ hmem => nomatch hmem
  | @binary inner left right _ hl _ _ _ ihl _ =>
    have hinner := (role_joint inner).1
    have hlt' : inner.priority < operator.priority := hlt
    intro x hx
    rcases List.mem_cons.mp hx with rfl | hx
    · omega
    · exact ihl (by omega) x hx

/-- Nothing stands on the left edge of the operand of a sign. -/
theorem leftSpine_rowOf (h : e.Explicit) (hle : e.priority ≤ Priority.prefixed) :
    (rowOf e).leftSpine = [] := by
  cases h with
  | integer _ | identifier _ | parenthesized _ | prefixed _ _ _ _ => rfl
  | @binary operator _ _ _ _ _ _ _ =>
    exact absurd hle (Int.not_le.mpr operator.prefixed_lt_priority)

theorem ordered_rowOf (h : e.Explicit) : (rowOf e).Ordered Item.role := by
  induction h with
  | integer _ | identifier _ | parenthesized _ _ => trivial
  | prefixed _ hle _ hoperand ih =>
    refine ⟨fun x hx => ?_, ih⟩
    rw [leftSpine_rowOf hoperand hle] at hx
    cases hx
  | @binary operator _ _ _ hl hr hleft hright ihl ihr =>
    exact ⟨yields_rowOf hleft operator hl, clings_rowOf hright operator hr, ihl, ihr⟩

/-- The levels group the row of an expression as the expression is grouped. -/
theorem rowTree_rowOf (h : e.Explicit) : rowTree (rowOf e).items = some e := by
  rw [rowTree, Precedence.group_items (rowOf e) (fits_rowOf h) (ordered_rowOf h), Option.bind_some,
    treeOf_rowOf h]

theorem leafOf_integer {text : String} (h : Source.grammar.Reads .integerLiteral text.toList) :
    leafOf text = .literal (.integer text) := by
  obtain ⟨u, v, htext, hu, -⟩ := h.spells
  obtain ⟨_, letters, rfl, ⟨⟨d, ds, rfl, hd⟩, -⟩, -⟩ := Lexical.isInteger_of_spells hu
  rw [leafOf, htext]
  exact if_pos hd

theorem leafOf_identifier {name : String} (h : IsIdentifier name) :
    leafOf name = .identifier name := by
  obtain ⟨x, w, hname, hx, -⟩ := h
  rw [leafOf, hname]
  exact if_neg hx

theorem writes_leaf {text : String} (h : Lexical.IsTerm text.toList) :
    dialect.Writes [text] [.operand (leafOf text)] :=
  .term h

theorem joins_symbol {operator : BinaryOperator} (h : operator.IsPlain) :
    dialect.Joins (Lexical.lexemes operator.symbol) (.joint operator) := by
  refine Dialect.joins_lexemes h ?_
  cases operator with
  | spaceship => exact absurd h id
  | product o | sum o | check o | shift o | comparison o | equality o => cases o <;> rfl
  | range | elvis | bitAnd | bitXor | bitOr | conjunction | disjunction => rfl

theorem writes_prefixed {operator : PrefixOperator} (h : operator.IsPlain) {tokens : List String}
    {row : List Item} (hrow : dialect.Writes tokens row) :
    dialect.Writes (operator.symbol :: tokens) (.sign operator :: row) := by
  cases operator with
  | plus | minus | increment | decrement | not => exact .signed (by decide) (by decide) rfl hrow
  | complement | reference => exact h.elim

/-- The tokens of an expression write its row. -/
theorem writes_rowOf (h : e.Explicit) : dialect.Writes e.target (rowOf e).items := by
  induction h with
  | integer hreads =>
    have hterm := writes_leaf (Lexical.isTerm_integerLiteral hreads)
    rwa [leafOf_integer hreads] at hterm
  | identifier hname =>
    have hterm := writes_leaf (Expression.isTerm_identifier hname)
    rwa [leafOf_identifier hname] at hterm
  | parenthesized hinner ih =>
    rw [Expression.target_parenthesized]
    exact .enclosed ih (rowTree_rowOf hinner)
  | prefixed hplain _ hsigns _ ih =>
    rw [Expression.target_prefixed, hsigns, if_neg Bool.false_ne_true]
    exact writes_prefixed hplain ih
  | binary hplain _ _ _ _ ihl ihr =>
    rw [Expression.target_binary hplain]
    exact .joined ihl (joins_symbol hplain) ihr

/-- An expression with all its parentheses is read back from its text. -/
theorem tree?_kotlin (h : e.Explicit) : tree? (Lexical.lexemes e.kotlin) = some e := by
  rw [h.sound.lexemes_eq, tree?, (writes_rowOf h).read?_eq]
  exact rowTree_rowOf h

end QuovaKotlin.Regrouping

namespace QuovaKotlin.Reading

open Ast Peg
open Precedence (Grouping)

variable {parts : Readers}

theorem operator?_readLiteral {node : Node} {e : Expression}
    (h : readLiteral parts node = .ok e) : e.operator? = none := by
  unfold readLiteral at h
  split at h
  case h_11 =>
    obtain ⟨_, -, rfl⟩ := map_eq_ok h
    rfl
  case h_12 =>
    obtain ⟨_, -, h⟩ := bind_eq_ok h
    split at h
    · obtain ⟨_, -, rfl⟩ := map_eq_ok h
      rfl
    · obtain ⟨_, -, rfl⟩ := map_eq_ok h
      rfl
  case h_13 =>
    obtain ⟨_, -, h⟩ := bind_eq_ok h
    split at h <;> cases h <;> rfl
  case h_14 => cases h
  all_goals
    cases h
    rfl

theorem operator?_readConstructorInvocation {node : Node} {e : Expression}
    (h : readConstructorInvocation parts node = .ok e) : e.operator? = none := by
  obtain ⟨element, -, h⟩ := bind_eq_ok h
  obtain ⟨sizes, -, h⟩ := bind_eq_ok h
  split at h
  · next hsized =>
    obtain ⟨_, _, rfl⟩ := sized?_eq_construct hsized
    cases h
    rfl
  · dsimp only at h
    split at h
    · obtain ⟨_, -, rfl⟩ := map_eq_ok h
      rfl
    · obtain ⟨_, -, h⟩ := bind_eq_ok h
      cases h
      rfl

/-- No operand is an infix expression: around one there are parentheses. -/
theorem operator?_readOperand {node : Node} {e : Expression}
    (h : readOperand parts node = .ok e) : e.operator? = none := by
  unfold readOperand at h
  split at h
  · obtain ⟨child, -, h⟩ := bind_eq_ok h
    exact operator?_readLiteral h
  · exact operator?_readConstructorInvocation h
  · obtain ⟨_, -, h⟩ := bind_eq_ok h
    obtain ⟨_, -, h⟩ := bind_eq_ok h
    obtain ⟨_, -, h⟩ := bind_eq_ok h
    cases h
    rfl
  · obtain ⟨_, -, h⟩ := bind_eq_ok h
    obtain ⟨_, -, h⟩ := bind_eq_ok h
    cases h
    rfl
  · obtain ⟨_, -, rfl⟩ := map_eq_ok h
    rfl
  · cases h
    rfl
  · cases h

/-- An infix expression is read from an infix token between two groupings. -/
theorem between_of_operator? {g : Grouping Node} {e : Expression} {operator : BinaryOperator}
    (h : readGrouping parts g = .ok e) (ho : operator ∈ e.operator?) :
    ∃ l node r, g = .between l node r ∧ node.rule = operator.rule := by
  cases g with
  | leaf node =>
    rw [operator?_readOperand h] at ho
    cases ho
  | before node operand =>
    obtain ⟨_, -, h⟩ := bind_eq_ok h
    unfold readPrefixed at h
    split at h
    · cases h
      cases ho
    · obtain ⟨_, -, h⟩ := bind_eq_ok h
      cases h
      cases ho
  | behind operand node =>
    obtain ⟨_, -, h⟩ := bind_eq_ok h
    unfold readSuffixed at h
    split at h
    · obtain ⟨_, -, h⟩ := bind_eq_ok h
      cases h
      cases ho
    · obtain ⟨_, -, h⟩ := bind_eq_ok h
      cases h
      cases ho
  | between l node r =>
    obtain ⟨_, -, h⟩ := bind_eq_ok h
    obtain ⟨_, -, h⟩ := bind_eq_ok h
    unfold readInfix at h
    split at h
    · obtain ⟨_, -, h⟩ := bind_eq_ok h
      cases h
      cases ho
    · obtain ⟨_, -, h⟩ := bind_eq_ok h
      cases h
      cases ho
    · obtain ⟨o, hoperator, h⟩ := bind_eq_ok h
      cases h
      cases ho
      exact ⟨l, node, r, rfl, readBinaryOperator_rule hoperator⟩

/-- The levels leave no operator of a class to the right operand of another one. -/
theorem rule_ne_of_isReading {node : Node} {operator o : BinaryOperator} {left right : Expression}
    (h : IsReading parts node (.expression (.binary operator left right)))
    (ho : o ∈ right.operator?) : o.rule ≠ operator.rule := by
  obtain ⟨hoperator, l, r, ⟨-, hclings, -⟩, -, hright⟩ := h
  obtain ⟨l', node', r', rfl, hrule⟩ := between_of_operator? hright ho
  have hlt := hclings node' List.mem_cons_self
  intro heq
  obtain ⟨power, hrole, -⟩ := roleOf_binary operator
  have hnode : nodeRole node = .leftToRight power := by
    rw [nodeRole, readBinaryOperator_rule hoperator, hrole]
  have hnode' : nodeRole node' = .leftToRight power := by rw [nodeRole, hrule, heq, hrole]
  rw [hnode, hnode'] at hlt
  exact Nat.lt_irrefl power hlt

theorem apart_of_readOperatorExpression {height : Nat} {node : Node} {e : Expression}
    (h : readOperatorExpression (Readers.ofHeight height) node = .ok e) : e.Apart := by
  intro operator left right hwithin o ho
  have hground := ground_operatorExpression (ground_ofHeight node height) (.self node) h
  obtain ⟨height', node', -, hreading⟩ := Part.Every.of_within hground hwithin
  exact rule_ne_of_isReading hreading ho

end QuovaKotlin.Reading

namespace QuovaKotlin.Ast

/-- The printed parentheses are enough. Whatever the grouping of an elementary expression is, if no
right operand is of the class of its operator, then grouping its printed tokens by the levels of the
source gives the expression back, up to parentheses. Every expression that is read from a sequence
of operands and operators is of that kind, with all expressions in it. -/
theorem printed_tokens_regroup :
    (∀ e : Expression, e.Elementary → e.Apart →
      ∃ e', Regrouping.tree? (Lexical.lexemes e.kotlin) = some e' ∧ e'.bare = e.bare) ∧
    ∀ (height : Nat) (node : Reading.Node) (e : Expression),
      Reading.readOperatorExpression (Reading.Readers.ofHeight height) node = .ok e → e.Apart := by
  refine ⟨fun e he happart => ?_, fun _ _ _ => Reading.apart_of_readOperatorExpression⟩
  have htree := Regrouping.tree?_kotlin (he.explicit_bracketed happart)
  rw [Expression.kotlin_bracketed he] at htree
  exact ⟨e.bracketed, htree, Expression.bare_bracketed he⟩

/-- The tree of `(a + b) * - -1`. -/
def signedProductTree : Reading.Node :=
  .node .operatorExpression ⟨0, 14⟩ [
    .node .expression ⟨1, 6⟩ [
      .node .operatorExpression ⟨1, 6⟩ [
        .token .simpleIdentifier ⟨1, 2⟩ "a", .token .sumOperator ⟨3, 4⟩ "+",
        .token .simpleIdentifier ⟨5, 6⟩ "b"]],
    .token .productOperator ⟨8, 9⟩ "*", .token .prefixOperator ⟨10, 11⟩ "-",
    .token .prefixOperator ⟨12, 13⟩ "-",
    .node .literal ⟨13, 14⟩ [.token .integerLiteral ⟨13, 14⟩ "1"]]

/-- `(a + b) * - -1`, read. -/
def signedProduct : Expression :=
  .binary (.product .times)
    (.parenthesized (.binary (.sum .plus) (.identifier "a") (.identifier "b")))
    (.prefixed .minus (.prefixed .minus (.literal (.integer "1"))))

theorem signedProduct_elementary : signedProduct.Elementary := by
  have hone : Source.grammar.Reads .integerLiteral "1".toList := by
    refine ⟨{ kind := .atomic }, ⟨0, ['1']⟩, [], ⟨1, []⟩, nofun, ?_, rfl, rfl⟩
    exact Peg.Grammar.evaluates_of_run 50 (by decide +kernel)
  exact .binary trivial
    (.parenthesized (.binary trivial (.identifier ⟨'a', [], rfl, by decide, by decide⟩)
      (.identifier ⟨'b', [], rfl, by decide, by decide⟩)))
    (.prefixed trivial (.prefixed trivial (.integer hone)))

/-- The parentheses between the two signs are printed only. -/
theorem signedProduct_regroups :
    signedProduct.kotlin = "(a + b) * -(-1)" ∧
      ∃ e', Regrouping.tree? (Lexical.lexemes signedProduct.kotlin) = some e' ∧
        e'.bare = signedProduct.bare := by
  obtain ⟨hregroup, hread⟩ := printed_tokens_regroup
  exact ⟨rfl, hregroup signedProduct signedProduct_elementary
    (hread 2 signedProductTree signedProduct rfl)⟩

end QuovaKotlin.Ast

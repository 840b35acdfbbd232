import QuovaKotlin.Proofs.PrintedRows

/-!
# How Kotlin groups an infix expression

Kotlin has precedence levels of its own. On them all shifts and bit operators stand together, and
`?:` and the checks are looser than these. Rendering puts parentheses by the levels of the source,
so the text of an infix expression is grouped as the expression exactly where the two orders agree.
-/

set_option autoImplicit false

namespace QuovaKotlin.Kotlin

open Precedence (Grouping Role)

/-- Which operands the infix operators join. Parentheses leave no trace. -/
inductive Outline
  | term (text : String)
  | joined (left : Outline) (symbol : String) (right : Outline)
  deriving DecidableEq, Repr

/-- The infix operators of Kotlin, the loosest level first. Every level groups from the left. -/
def levels : List (List String) :=
  [["||"], ["&&"], ["==", "!=", "===", "!=="], ["<", "<=", ">", ">="], ["in", "!in", "is", "!is"],
    ["?:"], ["shl", "shr", "ushr", "and", "xor", "or"], [".."], ["+", "-"], ["*", "/", "%"]]

def level? (symbol : String) : Option Nat :=
  levels.findIdx? fun symbols => symbols.contains symbol

/-- A row without parentheses is made of operands and infix operators. -/
inductive Piece
  | operand (outline : Outline)
  | joint (symbol : String) (level : Nat)
  deriving DecidableEq, Repr

def Piece.role : Piece → Role
  | operand _ => .operand
  | joint _ level => .leftToRight level

def Piece.outline : Piece → Outline
  | operand outline => outline
  | joint symbol _ => .term symbol

def Piece.symbol : Piece → String
  | operand _ => ""
  | joint symbol _ => symbol

/-- The outline of a grouped row. A row has no prefix and no postfix operators. -/
def outlineOf : Grouping Piece → Outline
  | .leaf piece => piece.outline
  | .before _ operand | .behind operand _ => outlineOf operand
  | .between left piece right => .joined (outlineOf left) piece.symbol (outlineOf right)

def rowOutline (row : List Piece) : Option Outline :=
  (Precedence.group Piece.role row).map outlineOf

/-- The rows of infix expressions: operands in parentheses and infix operators on Kotlin's levels.
There are no signs and no calls. -/
def dialect : Dialect Piece Outline where
  term text := .operand (.term text)
  enclosed := .operand
  sign? _ := none
  joint? symbol := (level? symbol).map (.joint symbol)
  call? _ := none
  row? := rowOutline

/-- The outline that Kotlin's precedence gives the tokens of an infix expression. -/
def outline? (tokens : List String) : Option Outline :=
  dialect.read? tokens

end QuovaKotlin.Kotlin

namespace QuovaKotlin.Ast

open Kotlin (Outline Piece)

/-- Identifiers, numbers, parentheses and infix operators, and nothing else. -/
inductive Expression.Infix : Expression → Prop
  | literal {value : Literal} : value.IsNumeric → Infix (.literal value)
  | identifier (name : String) : Infix (.identifier name)
  | parenthesized {inner : Expression} : Infix inner → Infix (.parenthesized inner)
  | binary {operator : BinaryOperator} {left right : Expression} :
      operator.IsPlain → Infix left → Infix right → Infix (.binary operator left right)

theorem Expression.Infix.plain {e : Expression} (h : e.Infix) : e.Plain := by
  induction h with
  | literal hnumeric => exact .literal hnumeric
  | identifier name => exact .identifier name
  | parenthesized _ ih => exact .parenthesized ih
  | binary hplain _ _ ihl ihr => exact .binary hplain ihl ihr

/-- The grouping of an infix expression, without its parentheses. -/
def Expression.outline : Expression → Outline
  | .parenthesized inner => inner.outline
  | .binary operator left right => .joined left.outline operator.symbol right.outline
  | e => .term e.kotlin

/-- The operator at the top of an expression that is not in parentheses. -/
def Expression.operator? : Expression → Option BinaryOperator
  | .binary operator _ _ => some operator
  | _ => none

/-- Kotlin writes these as infix functions, which all stand on one level. -/
def BinaryOperator.isNamed : BinaryOperator → Bool
  | shift _ | bitAnd | bitXor | bitOr => true
  | _ => false

/-- These bind tighter than the named operators in the source and looser in Kotlin. -/
def BinaryOperator.isLate : BinaryOperator → Bool
  | elvis | check _ => true
  | _ => false

/-- No named operator has a late operator as an operand, or a named one on its right, unless there
are parentheses in between. -/
def Expression.KeepsGroups : Expression → Prop
  | .parenthesized inner => inner.KeepsGroups
  | .binary operator left right =>
    (operator.isNamed → (∀ o ∈ left.operator?, ¬ o.isLate) ∧
      ∀ o ∈ right.operator?, ¬ o.isLate ∧ ¬ o.isNamed) ∧ left.KeepsGroups ∧ right.KeepsGroups
  | _ => True

/-- The level of a plain infix operator in Kotlin. -/
def BinaryOperator.level (operator : BinaryOperator) : Nat :=
  (Kotlin.level? operator.symbol).getD 0

def BinaryOperator.piece (operator : BinaryOperator) : Piece :=
  .joint operator.symbol operator.level

end QuovaKotlin.Ast

namespace QuovaKotlin.Kotlin

open Ast Precedence

/-- The row that is read from an infix expression, grouped as the expression is. Of an operand in
parentheses it holds what Kotlin made of it. -/
inductive Pieces : Expression → Grouping Piece → Prop
  | literal {value : Literal} : value.IsNumeric →
      Pieces (.literal value) (.leaf (.operand (.term value.kotlin)))
  | identifier (name : String) : Pieces (.identifier name) (.leaf (.operand (.term name)))
  | parenthesized {inner : Expression} {g : Grouping Piece} {o : Outline} :
      Pieces inner g → rowOutline g.items = some o →
      Pieces (.parenthesized inner) (.leaf (.operand o))
  | binary {operator : BinaryOperator} {left right : Expression} {l r : Grouping Piece} :
      operator.IsPlain → Pieces left l → Pieces right r →
      Pieces (.binary operator left right) (.between l operator.piece r)

variable {e : Expression} {g : Grouping Piece}

theorem Pieces.fits (h : Pieces e g) : g.Fits Piece.role := by
  induction h with
  | literal _ | identifier _ | parenthesized _ _ _ => rfl
  | binary _ _ _ ihl ihr => exact ⟨rfl, ihl, ihr⟩

theorem isRun_operand (o : Outline) : IsRun Piece.role [.operand o] :=
  .operand ⟨[], .operand o, [], rfl, by simp, rfl, by simp⟩

/-- A row of operands with an operator between each two of them can be grouped. -/
theorem exists_rowOutline {row : List Piece} (h : IsRun Piece.role row) :
    ∃ o, rowOutline row = some o := by
  obtain ⟨g, hgroup⟩ := h.grouped []
  have hrow : Precedence.group Piece.role row = some g := hgroup
  exact ⟨outlineOf g, by rw [rowOutline, hrow, Option.map_some]⟩

theorem Pieces.isRun (h : Pieces e g) : IsRun Piece.role g.items := by
  induction h with
  | literal _ => exact isRun_operand _
  | identifier _ => exact isRun_operand _
  | parenthesized _ _ _ => exact isRun_operand _
  | binary _ _ _ ihl ihr => exact ihl.append rfl ihr

theorem Pieces.rowOutline_eq (h : Pieces e g) : ∃ o, rowOutline g.items = some o :=
  exists_rowOutline h.isRun

theorem exists_pieces (h : e.Infix) : ∃ g, Pieces e g := by
  induction h with
  | literal hnumeric => exact ⟨_, .literal hnumeric⟩
  | identifier name => exact ⟨_, .identifier name⟩
  | parenthesized _ ih =>
    obtain ⟨g, hg⟩ := ih
    obtain ⟨o, ho⟩ := hg.rowOutline_eq
    exact ⟨_, .parenthesized hg ho⟩
  | binary hplain _ _ ihl ihr =>
    obtain ⟨l, hl⟩ := ihl
    obtain ⟨r, hr⟩ := ihr
    exact ⟨_, .binary hplain hl hr⟩

theorem level?_symbol {operator : BinaryOperator} (h : operator.IsPlain) :
    level? operator.symbol = some operator.level := by
  cases operator with
  | spaceship => exact absurd h id
  | product o | sum o | check o | shift o | comparison o | equality o => cases o <;> rfl
  | range | elvis | bitAnd | bitXor | bitOr | conjunction | disjunction => rfl

theorem joins_symbol {operator : BinaryOperator} (h : operator.IsPlain) :
    dialect.Joins (Lexical.lexemes operator.symbol) operator.piece := by
  refine Dialect.joins_lexemes h ?_
  show (level? operator.symbol).map (Piece.joint operator.symbol) = _
  rw [level?_symbol h]
  rfl

/-- The tokens of an infix expression write its row. -/
theorem Pieces.writes (h : Pieces e g) (hsound : e.Sound) : dialect.Writes e.target g.items := by
  induction h with
  | literal _ =>
    cases hsound with
    | literal _ hterm => exact .term hterm
  | identifier name =>
    cases hsound with
    | identifier hterm => exact .term hterm
  | parenthesized _ ho ih =>
    cases hsound with
    | parenthesized hinner =>
      rw [Expression.target_parenthesized]
      exact .enclosed (ih hinner) ho
  | binary hplain _ _ ihl ihr =>
    cases hsound with
    | binary _ _ _ hleft hright =>
      rw [Expression.target_binary hplain]
      exact .joined (ihl hleft) (joins_symbol hplain) (ihr hright)

theorem Pieces.outline?_target (h : Pieces e g) (hsound : e.Sound) :
    outline? e.target = rowOutline g.items :=
  (h.writes hsound).read?_eq

/-- Where an operator stands in the source and in Kotlin. -/
theorem level_cases {operator : BinaryOperator} (h : operator.IsPlain) :
    (operator.isNamed = false ∧ operator.isLate = false ∧ operator.priority ≤ 4 ∧
        operator.level = 11 - operator.priority) ∨
      (operator.isNamed = false ∧ operator.isLate = true ∧
        (operator.priority = 5 ∨ operator.priority = 6) ∧
        operator.level = 10 - operator.priority) ∨
      (operator.isNamed = true ∧ operator.isLate = false ∧ 8 ≤ operator.priority ∧
        operator.priority ≤ 11 ∧ operator.level = 6) ∨
      (operator.isNamed = false ∧ operator.isLate = false ∧ 13 ≤ operator.priority ∧
        operator.level = 16 - operator.priority) := by
  cases operator with
  | spaceship => exact absurd h id
  | product o | sum o | check o | shift o | comparison o | equality o => cases o <;> decide
  | range | elvis | bitAnd | bitXor | bitOr | conjunction | disjunction => decide

/-- Kotlin leaves a left operand alone unless a late operator stands under a named one. -/
theorem level_le_iff {outer inner : BinaryOperator} (ho : outer.IsPlain) (hi : inner.IsPlain)
    (hle : inner.priority ≤ outer.priority) :
    outer.level ≤ inner.level ↔ (outer.isNamed → ¬ inner.isLate) := by
  obtain ⟨hn, hl, h⟩ | ⟨hn, hl, h⟩ | ⟨hn, hl, h⟩ | ⟨hn, hl, h⟩ := level_cases ho <;>
    obtain ⟨hn', hl', h'⟩ | ⟨hn', hl', h'⟩ | ⟨hn', hl', h'⟩ | ⟨hn', hl', h'⟩ := level_cases hi <;>
    simp only [hn, hl', forall_const, Bool.false_eq_true, false_implies, not_true_eq_false,
      not_false_eq_true, iff_true, iff_false] <;>
    omega

/-- On the right the named operators do not come apart either. -/
theorem level_lt_iff {outer inner : BinaryOperator} (ho : outer.IsPlain) (hi : inner.IsPlain)
    (hlt : inner.priority < outer.priority) :
    outer.level < inner.level ↔ (outer.isNamed → ¬ inner.isLate ∧ ¬ inner.isNamed) := by
  obtain ⟨hn, hl, h⟩ | ⟨hn, hl, h⟩ | ⟨hn, hl, h⟩ | ⟨hn, hl, h⟩ := level_cases ho <;>
    obtain ⟨hn', hl', h'⟩ | ⟨hn', hl', h'⟩ | ⟨hn', hl', h'⟩ | ⟨hn', hl', h'⟩ := level_cases hi <;>
    simp only [hn, hn', hl', forall_const, Bool.false_eq_true, false_implies, not_true_eq_false,
      not_false_eq_true, and_true, and_false, iff_true, iff_false] <;>
    omega

/-- In an ordered row the operator at the top is the loosest on both edges. -/
theorem Pieces.edges (h : Pieces e g) (hordered : g.Ordered Piece.role) :
    (∀ n, g.Yields Piece.role n ↔ ∀ o ∈ e.operator?, n ≤ o.level) ∧
      ∀ n, g.Clings Piece.role n ↔ ∀ o ∈ e.operator?, n < o.level := by
  induction h with
  | literal _ | identifier _ | parenthesized _ _ _ =>
    simp [Grouping.Yields, Grouping.Clings, Grouping.rightSpine, Grouping.leftSpine,
      Expression.operator?]
  | @binary operator left right l r _ _ _ ihl ihr =>
    obtain ⟨hyields, hclings, hl, hr⟩ := hordered
    have hleft := ((ihl hl).1 _).mp hyields
    have hright := ((ihr hr).2 _).mp hclings
    refine ⟨fun n => ?_, fun n => ?_⟩
    · simp only [Grouping.Yields, Grouping.rightSpine, List.forall_mem_cons, Expression.operator?,
        Option.mem_some_iff, forall_eq']
      refine ⟨fun h => h.1, fun hn => ⟨hn, ((ihr hr).1 n).mpr fun o ho => ?_⟩⟩
      exact Nat.le_of_lt (Nat.lt_of_le_of_lt hn (hright o ho))
    · simp only [Grouping.Clings, Grouping.leftSpine, List.forall_mem_cons, Expression.operator?,
        Option.mem_some_iff, forall_eq']
      refine ⟨fun h => h.1, fun hn => ⟨hn, ((ihl hl).2 n).mpr fun o ho => ?_⟩⟩
      exact Nat.lt_of_lt_of_le hn (hleft o ho)

def Outline.size : Outline → Nat
  | term _ => 1
  | joined left _ right => left.size + right.size

theorem Outline.size_pos (o : Outline) : 0 < o.size := by
  induction o with
  | term _ => exact Nat.one_pos
  | joined _ _ _ ihl _ => exact Nat.add_pos_left ihl _

def Piece.size : Piece → Nat
  | operand outline => outline.size
  | joint _ _ => 0

/-- How many terms the operands of a row have. -/
def rowSize : List Piece → Nat
  | [] => 0
  | piece :: row => piece.size + rowSize row

theorem rowSize_append (row rest : List Piece) :
    rowSize (row ++ rest) = rowSize row + rowSize rest := by
  induction row with
  | nil => simp [rowSize]
  | cons piece row ih => rw [List.cons_append, rowSize, ih, rowSize, Nat.add_assoc]

theorem size_le_rowSize {piece : Piece} {row : List Piece} (h : piece ∈ row) :
    piece.size ≤ rowSize row := by
  induction h with
  | head row => exact Nat.le_add_right _ _
  | tail other _ ih => exact Nat.le_trans ih (Nat.le_add_left _ _)

theorem Piece.not_isBefore (piece : Piece) : ¬ piece.role.isBefore := by
  cases piece <;> exact Bool.false_ne_true

theorem Piece.not_isBehind (piece : Piece) : ¬ piece.role.isBehind := by
  cases piece <;> exact Bool.false_ne_true

theorem Piece.eq_operand {piece : Piece} (h : piece.role = .operand) :
    ∃ o, piece = .operand o := by
  cases piece with
  | operand o => exact ⟨o, rfl⟩
  | joint _ _ => cases h

theorem Piece.size_of_isBetween {piece : Piece} (h : piece.role.isBetween) : piece.size = 0 := by
  cases piece with
  | operand _ => cases h
  | joint _ _ => rfl

theorem size_outlineOf (hfits : g.Fits Piece.role) : (outlineOf g).size = rowSize g.items := by
  induction g with
  | leaf piece =>
    obtain ⟨o, rfl⟩ := Piece.eq_operand hfits
    simp [outlineOf, Piece.outline, rowSize, Grouping.items, Piece.size]
  | before piece _ _ => exact absurd hfits.1 piece.not_isBefore
  | behind _ piece _ => exact absurd hfits.1 piece.not_isBehind
  | between left piece right ihl ihr =>
    have hpiece := Piece.size_of_isBetween hfits.1
    rw [outlineOf, Outline.size, ihl hfits.2.1, ihr hfits.2.2]
    rw [Grouping.items, rowSize_append, rowSize, hpiece, Nat.zero_add]

theorem getLast?_items (hfits : g.Fits Piece.role) : ∃ o, g.items.getLast? = some (.operand o) := by
  induction g with
  | leaf piece =>
    obtain ⟨o, rfl⟩ := Piece.eq_operand hfits
    exact ⟨o, rfl⟩
  | before piece _ _ => exact absurd hfits.1 piece.not_isBefore
  | behind _ piece _ => exact absurd hfits.1 piece.not_isBehind
  | between left piece right _ ihr =>
    obtain ⟨o, ho⟩ := ihr hfits.2.2
    exact ⟨o, by simp [Grouping.items, List.getLast?_append, List.getLast?_cons, ho]⟩

/-- A row ends with an operand, so whatever is left of it has a term. -/
theorem rowSize_pos {front rest : List Piece} {piece : Piece} (hfits : g.Fits Piece.role)
    (h : g.items = front ++ piece :: rest) : 0 < rowSize (piece :: rest) := by
  obtain ⟨o, ho⟩ := getLast?_items hfits
  have hlast : (piece :: rest).getLast? = some (.operand o) := by
    rw [h, List.getLast?_append, List.getLast?_cons, Option.some_or] at ho
    rw [List.getLast?_cons, ho]
  have hmem : Piece.operand o ∈ piece :: rest := List.mem_of_getLast? hlast
  exact Nat.lt_of_lt_of_le o.size_pos (size_le_rowSize hmem)

/-- Two left operands of one row are the same part of it if they have as many terms. -/
theorem items_eq_of_rowSize {l l' : Grouping Piece} {p p' : Piece} {rest rest' : List Piece}
    (hl : l.Fits Piece.role) (hl' : l'.Fits Piece.role)
    (h : l.items ++ p :: rest = l'.items ++ p' :: rest')
    (hsize : rowSize l.items = rowSize l'.items) : l.items = l'.items ∧ p = p' ∧ rest = rest' := by
  have hstop : ∀ {k k' : Grouping Piece} {x : Piece} {xs : List Piece}, k'.Fits Piece.role →
      rowSize k.items = rowSize k'.items → k'.items ≠ k.items ++ x :: xs := by
    intro k k' x xs hk' hsizes hitems
    have hpos := rowSize_pos hk' hitems
    rw [hitems, rowSize_append] at hsizes
    omega
  obtain ⟨xs, hitems, htail⟩ | ⟨xs, hitems, htail⟩ := List.append_eq_append_iff.mp h
  · cases xs with
    | nil =>
      rw [List.append_nil] at hitems
      obtain ⟨hp, hrest⟩ := List.cons.inj htail
      exact ⟨hitems.symm, hp, hrest⟩
    | cons x xs => exact absurd hitems (hstop hl' hsize)
  · cases xs with
    | nil =>
      rw [List.append_nil] at hitems
      obtain ⟨hp, hrest⟩ := List.cons.inj htail
      exact ⟨hitems, hp.symm, hrest.symm⟩
    | cons x xs => exact absurd hitems (hstop hl hsize.symm)

theorem rowOutline_sound {row : List Piece} {o : Outline} (h : rowOutline row = some o) :
    ∃ g : Grouping Piece, g.items = row ∧ g.Fits Piece.role ∧ g.Ordered Piece.role ∧
      outlineOf g = o := by
  obtain ⟨g, hgroup, ho⟩ := Option.map_eq_some_iff.mp h
  obtain ⟨hitems, hfits, hordered⟩ := Precedence.group_sound hgroup
  exact ⟨g, hitems, hfits, hordered, ho⟩

theorem Pieces.rowSize_eq (h : Pieces e g) : rowSize g.items = e.outline.size := by
  induction h with
  | literal _ | identifier _ => rfl
  | @parenthesized inner g o _ ho ih =>
    obtain ⟨g', hitems, hfits, -, rfl⟩ := rowOutline_sound ho
    rw [Expression.outline, ← ih, ← hitems, ← size_outlineOf hfits]
    rfl
  | @binary operator _ _ _ _ _ _ _ ihl ihr =>
    have hpiece : operator.piece.size = 0 := rfl
    rw [Expression.outline, Outline.size, ← ihl, ← ihr, Grouping.items, rowSize_append, rowSize,
      hpiece, Nat.zero_add]

theorem items_ne_nil (hfits : g.Fits Piece.role) : g.items ≠ [] := by
  obtain ⟨o, ho⟩ := getLast?_items hfits
  intro hnil
  rw [hnil] at ho
  cases ho

theorem eq_leaf {piece : Piece} (hfits : g.Fits Piece.role) (h : g.items = [piece]) :
    g = .leaf piece := by
  cases g with
  | leaf _ => rw [(List.cons.inj h).1]
  | before piece _ => exact absurd hfits.1 piece.not_isBefore
  | behind _ piece => exact absurd hfits.1 piece.not_isBehind
  | between left _ right =>
    have hlength := congrArg List.length h
    have hpos := List.length_pos_iff.mpr (items_ne_nil hfits.2.1)
    simp only [Grouping.items, List.length_append, List.length_cons, List.length_nil] at hlength
    omega

/-- A grouping of the row that has the outline of the expression is the grouping of the
expression. -/
theorem Pieces.eq_of_outline (h : Pieces e g) {g' : Grouping Piece} (hfits : g'.Fits Piece.role)
    (hitems : g'.items = g.items) (ho : outlineOf g' = e.outline) : g' = g := by
  induction h generalizing g' with
  | literal _ | identifier _ | parenthesized _ _ _ => exact eq_leaf hfits hitems
  | @binary operator left right l r _ hl hr ihl ihr =>
    cases g' with
    | leaf piece =>
      have heq := eq_leaf (g := .between l operator.piece r) ⟨rfl, hl.fits, hr.fits⟩ hitems.symm
      cases heq
    | before piece _ => exact absurd hfits.1 piece.not_isBefore
    | behind _ piece => exact absurd hfits.1 piece.not_isBehind
    | between l' piece r' =>
      obtain ⟨-, hl', hr'⟩ := hfits
      obtain ⟨hleft, -, hright⟩ := Outline.joined.inj ho
      have hsize : rowSize l'.items = rowSize l.items := by
        rw [← size_outlineOf hl', hleft, hl.rowSize_eq]
      obtain ⟨hitemsL, rfl, hitemsR⟩ := items_eq_of_rowSize hl' hl.fits hitems hsize
      rw [ihl hl' hitemsL hleft, ihr hr' hitemsR hright]

theorem Pieces.rowOutline_eq_iff (h : Pieces e g) :
    rowOutline g.items = some e.outline ↔ outlineOf g = e.outline ∧ g.Ordered Piece.role := by
  constructor
  · intro hrow
    obtain ⟨g', hitems, hfits, hordered, ho⟩ := rowOutline_sound hrow
    have heq := h.eq_of_outline hfits hitems ho
    subst heq
    exact ⟨ho, hordered⟩
  · rintro ⟨ho, hordered⟩
    rw [rowOutline, Precedence.group_items g h.fits hordered, Option.map_some, ho]

theorem operator?_sound {operator : BinaryOperator} (h : e.Sound) (ho : operator ∈ e.operator?) :
    operator.IsPlain ∧ e.priority = operator.priority := by
  cases h with
  | binary hplain _ _ _ _ =>
    cases ho
    exact ⟨hplain, rfl⟩
  | literal _ _ | identifier _ | parenthesized _ | prefixed _ _ _ => cases ho

/-- What Kotlin's levels ask of the two operands of a well grouped operator. -/
theorem levels_iff {operator : BinaryOperator} {left right : Expression}
    (hplain : operator.IsPlain) (hleft : left.Sound) (hright : right.Sound)
    (hl : left.priority ≤ operator.priority) (hr : right.priority < operator.priority) :
    ((∀ o ∈ left.operator?, operator.level ≤ o.level) ∧
        ∀ o ∈ right.operator?, operator.level < o.level) ↔
      (operator.isNamed → (∀ o ∈ left.operator?, ¬ o.isLate) ∧
        ∀ o ∈ right.operator?, ¬ o.isLate ∧ ¬ o.isNamed) := by
  have hle : ∀ o ∈ left.operator?,
      (operator.level ≤ o.level ↔ (operator.isNamed → ¬ o.isLate)) := by
    intro o ho
    obtain ⟨hoplain, hpriority⟩ := operator?_sound hleft ho
    exact level_le_iff hplain hoplain (hpriority ▸ hl)
  have hlt : ∀ o ∈ right.operator?,
      (operator.level < o.level ↔ (operator.isNamed → ¬ o.isLate ∧ ¬ o.isNamed)) := by
    intro o ho
    obtain ⟨hoplain, hpriority⟩ := operator?_sound hright ho
    exact level_lt_iff hplain hoplain (hpriority ▸ hr)
  constructor
  · rintro ⟨hlevels, hlevels'⟩ hnamed
    exact ⟨fun o ho => (hle o ho).mp (hlevels o ho) hnamed,
      fun o ho => (hlt o ho).mp (hlevels' o ho) hnamed⟩
  · intro h
    exact ⟨fun o ho => (hle o ho).mpr fun hnamed => (h hnamed).1 o ho,
      fun o ho => (hlt o ho).mpr fun hnamed => (h hnamed).2 o ho⟩

theorem Pieces.keepsGroups_iff (h : Pieces e g) (hsound : e.Sound) :
    outlineOf g = e.outline ∧ g.Ordered Piece.role ↔ e.KeepsGroups := by
  induction h with
  | literal _ | identifier _ => exact iff_of_true ⟨rfl, trivial⟩ trivial
  | @parenthesized inner g o hg ho ih =>
    cases hsound with
    | parenthesized hinner =>
      -- Kotlin reads the inner row on its own, so its outline is right by itself.
      have hrow := hg.rowOutline_eq_iff.trans (ih hinner)
      rw [ho, Option.some_inj] at hrow
      exact (and_iff_left trivial).trans hrow
  | @binary operator left right l r _ hgl hgr ihl ihr =>
    cases hsound with
    | binary hplain hl hr hleft hright =>
      have hlevels := levels_iff hplain hleft hright hl hr
      constructor
      · rintro ⟨ho, hyields, hclings, hol, hor⟩
        obtain ⟨houtL, -, houtR⟩ := Outline.joined.inj ho
        have htopL := ((hgl.edges hol).1 _).mp hyields
        have htopR := ((hgr.edges hor).2 _).mp hclings
        exact ⟨hlevels.mp ⟨htopL, htopR⟩, (ihl hleft).mp ⟨houtL, hol⟩, (ihr hright).mp ⟨houtR, hor⟩⟩
      · rintro ⟨hnamed, hkl, hkr⟩
        obtain ⟨houtL, hol⟩ := (ihl hleft).mpr hkl
        obtain ⟨houtR, hor⟩ := (ihr hright).mpr hkr
        obtain ⟨htopL, htopR⟩ := hlevels.mpr hnamed
        refine ⟨?_, ((hgl.edges hol).1 _).mpr htopL, ((hgr.edges hor).2 _).mpr htopR, hol, hor⟩
        rw [outlineOf, houtL, houtR]
        rfl

end QuovaKotlin.Kotlin

namespace QuovaKotlin.Source

/-- Kotlin reads the text of every infix expression, and groups it as the expression is grouped
exactly where no named operator has a late or, on its right, a named one as its bare operand. -/
theorem kotlin_grouping_iff {text : String} {node : Reading.Node} {e : Ast.Expression}
    (h : Holds text node e) (he : e.Infix) :
    ∃ outline, Kotlin.outline? (Lexical.lexemes e.kotlin) = some outline ∧
      (outline = e.outline ↔ e.KeepsGroups) := by
  obtain ⟨g, hg⟩ := Kotlin.exists_pieces he
  have hsound := h.sound he.plain
  obtain ⟨outline, houtline⟩ := hg.rowOutline_eq
  refine ⟨outline, ?_, ?_⟩
  · rw [hsound.lexemes_eq, hg.outline?_target hsound, houtline]
  · have hiff := hg.rowOutline_eq_iff.trans (hg.keepsGroups_iff hsound)
    rwa [houtline, Option.some_inj] at hiff

/-- The expression of `var v = a | b & c;`. -/
def bitsInRow : Reading.Node :=
  .node .expression ⟨8, 17⟩ [
    .node .operatorExpression ⟨8, 17⟩ [
      .token .simpleIdentifier ⟨8, 9⟩ "a", .token .bitOrOperator ⟨10, 11⟩ "|",
      .token .simpleIdentifier ⟨12, 13⟩ "b", .token .bitAndOperator ⟨14, 15⟩ "&",
      .token .simpleIdentifier ⟨16, 17⟩ "c"]]

/-- `a | b & c`, read. -/
def bitsInRowRead : Ast.Expression :=
  .binary .bitOr (.identifier "a") (.binary .bitAnd (.identifier "b") (.identifier "c"))

theorem bitsInRow_holds : Holds "var v = a | b & c;" bitsInRow bitsInRowRead := by
  have hparse : (grammar.parse .quovaFile "var v = a | b & c;").toOption =
      some (propertyTree bitsInRow 17) := by decide +kernel
  have hread : (Reading.Readers.ofHeight 2).expression bitsInRow = .ok bitsInRowRead := rfl
  exact holds_of_propertyTree hparse rfl hread

theorem infix_bitsInRow : bitsInRowRead.Infix :=
  .binary trivial (.identifier "a") (.binary trivial (.identifier "b") (.identifier "c"))

theorem not_keepsGroups_bitsInRow : ¬ bitsInRowRead.KeepsGroups := by
  intro h
  exact ((h.1 rfl).2 .bitAnd rfl).2 rfl

theorem bitsInRow_misread :
    Holds "var v = a | b & c;" bitsInRow bitsInRowRead ∧ bitsInRowRead.Infix ∧
      bitsInRowRead.kotlin = "a or b and c" ∧ ¬ bitsInRowRead.KeepsGroups ∧
      ∃ outline, Kotlin.outline? (Lexical.lexemes bitsInRowRead.kotlin) = some outline ∧
        outline ≠ bitsInRowRead.outline := by
  obtain ⟨outline, houtline, hiff⟩ := kotlin_grouping_iff bitsInRow_holds infix_bitsInRow
  exact ⟨bitsInRow_holds, infix_bitsInRow, rfl, not_keepsGroups_bitsInRow, outline, houtline,
    fun heq => not_keepsGroups_bitsInRow (hiff.mp heq)⟩

end QuovaKotlin.Source

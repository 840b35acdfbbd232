import Mathlib.Data.List.Forall2
import QuovaKotlin.Proofs.ElementaryReadings
import QuovaKotlin.Proofs.PrintedParts

/-!
# The entries of a dictionary in Kotlin

A dictionary is printed as `hashMapOf(...)` with an argument `key to value` for each entry. In
Kotlin `to` is an infix function and takes part in the grouping of its argument, but neither side of
it is ever put into parentheses. So an argument is the pair of its entry exactly where no operator
of the key outside parentheses is looser than `to`, and every such operator of the value is tighter.
-/

set_option autoImplicit false

namespace QuovaKotlin.Lexical

open Peg

namespace Spans

variable {before : List Char → Prop} {u v : List Char} {ts us : List String}

/-- A word between blanks. -/
theorem spaced {s : String} (hs : IsTerm s.toList) (hleft : Spans before Ends u ts)
    (hright : Spans Opens Ends v us) :
    Spans before Ends (u ++ ([' '] ++ (s.toList ++ ([' '] ++ v)))) (ts ++ ([s] ++ us)) where
  segment hpasses := by
    obtain ⟨c₁, hu, hpasses⟩ := passes_split hpasses
    obtain ⟨c₂, hlead, hpasses⟩ := passes_split hpasses
    obtain ⟨c₃, hword, hpasses⟩ := passes_split hpasses
    obtain ⟨c₄, htrail, hv⟩ := passes_split hpasses
    have hfirst : Segment Ends OpensTerm c₁ [] c₂ :=
      segment_blank hlead ((term hs).solid hword) fun _ => ⟨Blank.offWord rfl, rfl⟩
    have hlast : Segment Blank Opens c₃ [] c₄ :=
      segment_blank htrail (hright.solid hv) fun _ => rfl
    have hjoint := (segment_word hs hword).append (hlast.append (hright.segment hv))
    exact (hleft.segment hu).append (hfirst.append hjoint)
  solid hpasses := by
    obtain ⟨c₁, hu, -⟩ := passes_split hpasses
    exact hleft.solid hu

/-- A comma with a blank behind it. -/
theorem listed (hleft : Spans before Ends u ts) (hright : Spans Opens Ends v us) :
    Spans before Ends (u ++ ([','] ++ ([' '] ++ v))) (ts ++ ([","] ++ us)) where
  segment hpasses := by
    obtain ⟨c₁, hu, hpasses⟩ := passes_split hpasses
    obtain ⟨c₂, hcomma, hpasses⟩ := passes_split hpasses
    obtain ⟨c₃, hblank, hv⟩ := passes_split hpasses
    have hskip := skipLayout_of_passes hcomma (by decide)
    have hmark : Segment Ends Opens c₁ [","] c₂ :=
      segment_symbol hcomma hskip (by decide) (by decide) (fun h => absurd h (by decide))
        (fun h => absurd h (by decide)) fun _ _ => ⟨by simp [OffWord]; decide, rfl⟩
    have hlast : Segment Opens Opens c₂ [] c₃ :=
      segment_blank hblank (hright.solid hv) fun _ => Blank.opens rfl
    exact (hleft.segment hu).append (hmark.append (hlast.append (hright.segment hv)))
  solid hpasses := by
    obtain ⟨c₁, hu, -⟩ := passes_split hpasses
    exact hleft.solid hu

theorem commas {texts : List String} {tokens : List (List String)}
    (h : List.Forall₂ (fun text ts => Spans Opens Ends text.toList ts) texts tokens)
    (hne : texts ≠ []) :
    Spans Opens Ends (Text.commas texts).toList ([","].intercalate tokens) := by
  induction h with
  | nil => exact absurd rfl hne
  | @cons text ts texts tokens hfirst hrest ih =>
    cases hrest with
    | nil =>
      rw [List.intercalate_singleton]
      exact hfirst
    | @cons text' ts' texts tokens =>
      have htext : (Text.commas (text :: text' :: texts)).toList =
          text.toList ++ ([','] ++ ([' '] ++ (Text.commas (text' :: texts)).toList)) := by
        show (text ++ ", " ++ Text.commas (text' :: texts)).toList = _
        simp only [String.toList_append, List.append_assoc]
        rfl
      rw [htext, List.intercalate_cons_cons, List.append_assoc]
      exact hfirst.listed (ih (List.cons_ne_nil _ _))

/-- The name of a function in front of its arguments. -/
theorem applied {between : List Char → Prop} {x : Char} {w : List Char} (hx : ¬ x.isDigit)
    (hw : (x :: w).all isWordChar) (h : Spans between Ends v us) :
    Spans Opens Ends ((x :: w) ++ (['('] ++ v)) ([.ofList (x :: w)] ++ (["("] ++ us)) := by
  refine ((word hx hw).append (bracket.append h)).mono (fun view hview => ⟨x, hview, ?_⟩)
    fun _ h => h
  simp [isOpening, List.all_eq_true.mp hw x List.mem_cons_self]

end Spans

end QuovaKotlin.Lexical

namespace QuovaKotlin.Kotlin

open Precedence (Grouping)

/-- The arguments of a call of `name`, where no argument has a comma of its own. -/
def arguments? (name : String) (tokens : List String) : Option (List (List String)) :=
  match tokens with
  | first :: bracket :: rest =>
    if first = name ∧ bracket = "(" ∧ rest.getLast? = some ")" then
      some (if rest.dropLast = [] then [] else rest.dropLast.splitOn ",")
    else none
  | _ => none

namespace Argument

/-- `to` is an infix function, as the shifts and the bit operators are. -/
def level? (symbol : String) : Option Nat :=
  if symbol = "to" then Kotlin.level? "shl" else Kotlin.level? symbol

/-- The calls of the members of an operand. A call is one operand. -/
def call? : Piece → Option (String → Outline → Piece)
  | .operand receiver => some fun member inside => .operand (.joined receiver ("." ++ member) inside)
  | .joint _ _ => none

/-- The rows of infix expressions, with `to` and with calls. -/
def dialect : Dialect Piece Outline :=
  { Kotlin.dialect with
    joint? := fun symbol => (level? symbol).map (.joint symbol)
    call? := call? }

/-- The outline that Kotlin's precedence gives the tokens of an argument: infix operators, `to`
among them, and calls of members. -/
def outline? (tokens : List String) : Option Outline :=
  dialect.read? tokens

end Argument

def Piece.level? : Piece → Option Nat
  | operand _ => none
  | joint _ level => some level

/-- The levels of the operators of a row. -/
def rowLevels (row : List Piece) : List Nat :=
  row.filterMap Piece.level?

theorem rowLevels_joint (row rest : List Piece) (symbol : String) (level : Nat) :
    rowLevels (row ++ .joint symbol level :: rest) =
      rowLevels row ++ level :: rowLevels rest := by
  simp [rowLevels, Piece.level?]

theorem Piece.eq_joint {piece : Piece} (h : piece.role.isBetween) :
    ∃ symbol level, piece = .joint symbol level := by
  cases piece with
  | operand _ => cases h
  | joint symbol level => exact ⟨symbol, level, rfl⟩

variable {g : Grouping Piece}

/-- On the right edge of an ordered row stands an operator as loose as any. -/
theorem yields_iff (hfits : g.Fits Piece.role) (hordered : g.Ordered Piece.role) (n : Nat) :
    g.Yields Piece.role n ↔ ∀ level ∈ rowLevels g.items, n ≤ level := by
  induction g generalizing n with
  | leaf piece =>
    obtain ⟨o, rfl⟩ := Piece.eq_operand hfits
    simp [Grouping.Yields, Grouping.rightSpine, Grouping.items, rowLevels, Piece.level?]
  | before piece _ _ => exact absurd hfits.1 piece.not_isBefore
  | behind _ piece _ => exact absurd hfits.1 piece.not_isBehind
  | between left piece right ihl ihr =>
    obtain ⟨hpiece, hl, hr⟩ := hfits
    obtain ⟨hyields, -, hol, hor⟩ := hordered
    obtain ⟨symbol, level, rfl⟩ := Piece.eq_joint hpiece
    have hleft : ∀ l ∈ rowLevels left.items, level ≤ l := (ihl hl hol level).mp hyields
    have hedge : (Grouping.between left (.joint symbol level) right).Yields Piece.role n ↔
        n ≤ level ∧ right.Yields Piece.role n := by
      simp only [Grouping.Yields, Grouping.rightSpine, List.forall_mem_cons]
      rfl
    rw [hedge, ihr hr hor, Grouping.items, rowLevels_joint, List.forall_mem_append,
      List.forall_mem_cons]
    exact ⟨fun h => ⟨fun l hmem => Nat.le_trans h.1 (hleft l hmem), h⟩, fun h => h.2⟩

/-- And so on the left edge. -/
theorem clings_iff (hfits : g.Fits Piece.role) (hordered : g.Ordered Piece.role) (n : Nat) :
    g.Clings Piece.role n ↔ ∀ level ∈ rowLevels g.items, n < level := by
  induction g generalizing n with
  | leaf piece =>
    obtain ⟨o, rfl⟩ := Piece.eq_operand hfits
    simp [Grouping.Clings, Grouping.leftSpine, Grouping.items, rowLevels, Piece.level?]
  | before piece _ _ => exact absurd hfits.1 piece.not_isBefore
  | behind _ piece _ => exact absurd hfits.1 piece.not_isBehind
  | between left piece right ihl ihr =>
    obtain ⟨hpiece, hl, hr⟩ := hfits
    obtain ⟨-, hclings, hol, hor⟩ := hordered
    obtain ⟨symbol, level, rfl⟩ := Piece.eq_joint hpiece
    have hright : ∀ l ∈ rowLevels right.items, level < l := (ihr hr hor level).mp hclings
    have hedge : (Grouping.between left (.joint symbol level) right).Clings Piece.role n ↔
        n < level ∧ left.Clings Piece.role n := by
      simp only [Grouping.Clings, Grouping.leftSpine, List.forall_mem_cons]
      rfl
    rw [hedge, ihl hl hol, Grouping.items, rowLevels_joint, List.forall_mem_append,
      List.forall_mem_cons]
    exact ⟨fun h => ⟨h.2, h.1, fun l hmem => Nat.lt_trans h.1 (hright l hmem)⟩,
      fun h => ⟨h.2.1, h.1⟩⟩

/-- A row is grouped in one way only. -/
theorem eq_of_items {g' : Grouping Piece} (hfits : g.Fits Piece.role)
    (hordered : g.Ordered Piece.role) (hfits' : g'.Fits Piece.role)
    (hordered' : g'.Ordered Piece.role) (h : g.items = g'.items) : g = g' := by
  have hgroup := Precedence.group_items g hfits hordered
  rw [h, Precedence.group_items g' hfits' hordered'] at hgroup
  exact (Option.some.inj hgroup).symm

/-- An operator between two rows joins their outlines exactly where it is looser than every
operator on its right and no tighter than any on its left. -/
theorem rowOutline_joined_iff {row rest : List Piece} {symbol : String} {level : Nat}
    {left right : Outline} (hleft : rowOutline row = some left)
    (hright : rowOutline rest = some right) :
    rowOutline (row ++ .joint symbol level :: rest) = some (.joined left symbol right) ↔
      (∀ l ∈ rowLevels row, level ≤ l) ∧ ∀ l ∈ rowLevels rest, level < l := by
  obtain ⟨gl, rfl, hfl, hol, rfl⟩ := rowOutline_sound hleft
  obtain ⟨gr, rfl, hfr, hor, rfl⟩ := rowOutline_sound hright
  rw [← yields_iff hfl hol, ← clings_iff hfr hor]
  constructor
  · intro hrow
    obtain ⟨g, hitems, hfits, hordered, ho⟩ := rowOutline_sound hrow
    cases g with
    | leaf piece =>
      have hlength := congrArg List.length hitems
      have hpos := List.length_pos_iff.mpr (items_ne_nil hfl)
      simp only [Grouping.items, List.length_append, List.length_cons, List.length_nil] at hlength
      omega
    | before piece _ => exact absurd hfits.1 piece.not_isBefore
    | behind _ piece => exact absurd hfits.1 piece.not_isBehind
    | between l piece r =>
      obtain ⟨-, hl, hr⟩ := hfits
      obtain ⟨hyields, hclings, hol', hor'⟩ := hordered
      obtain ⟨hoLeft, -, hoRight⟩ := Outline.joined.inj ho
      -- As many terms on the left, so the row is divided at the same place.
      have hsize : rowSize l.items = rowSize gl.items := by
        rw [← size_outlineOf hl, hoLeft, size_outlineOf hfl]
      obtain ⟨hitemsL, rfl, hitemsR⟩ := items_eq_of_rowSize hl hfl hitems hsize
      rw [← eq_of_items hl hol' hfl hol hitemsL, ← eq_of_items hr hor' hfr hor hitemsR]
      exact ⟨hyields, hclings⟩
  · rintro ⟨hyields, hclings⟩
    have hfits : (Grouping.between gl (.joint symbol level) gr).Fits Piece.role := ⟨rfl, hfl, hfr⟩
    have hordered : (Grouping.between gl (.joint symbol level) gr).Ordered Piece.role :=
      ⟨hyields, hclings, hol, hor⟩
    have hgroup := Precedence.group_items _ hfits hordered
    rw [Grouping.items] at hgroup
    rw [rowOutline, hgroup]
    rfl

namespace Argument

open Ast
open Lexical (Spans Opens Ends IsTerm lexemes)
open Precedence (IsRun)

/-- The tokens of a text and the row that they write. The operators are those outside
parentheses. -/
structure Spelling (text : String) (operators : List BinaryOperator) (tokens : List String)
    (row : List Piece) : Prop where
  spans : Spans Opens Ends text.toList tokens
  writes : dialect.Writes tokens row
  isRun : IsRun Piece.role row
  levels_eq : rowLevels row = operators.map (·.level)
  plain : ∀ operator ∈ operators, operator.IsPlain
  single : operators = [] → ∃ o, row = [.operand o]

namespace Spelling

variable {text text' : String} {operators operators' : List BinaryOperator}
  {tokens tokens' : List String} {row row' : List Piece}

theorem outline?_lexemes (h : Spelling text operators tokens row) :
    outline? (lexemes text) = rowOutline row := by
  rw [h.spans.lexemes_eq, outline?, h.writes.read?_eq]
  rfl

theorem term (h : IsTerm text.toList) : Spelling text [] [text] [.operand (.term text)] where
  spans := (Expression.spans_term h).mono (fun _ h => h.opens) fun _ h => h
  writes := .term h
  isRun := isRun_operand _
  levels_eq := rfl
  plain := nofun
  single _ := ⟨_, rfl⟩

theorem enclosed (h : Spelling text operators tokens row) :
    ∃ o, Spelling ("(" ++ text ++ ")") [] ("(" :: (tokens ++ [")"])) [.operand o] := by
  obtain ⟨o, ho⟩ := exists_rowOutline h.isRun
  exact ⟨o, h.spans.enclosed, .enclosed h.writes ho, isRun_operand o, rfl, nofun,
    fun _ => ⟨o, rfl⟩⟩

theorem level?_symbol {operator : BinaryOperator} (h : operator.IsPlain) :
    level? operator.symbol = some operator.level := by
  have hto : operator.symbol ≠ "to" := by
    intro hsymbol
    have hlevel := Kotlin.level?_symbol h
    rw [hsymbol] at hlevel
    cases hlevel
  rw [level?, if_neg hto, Kotlin.level?_symbol h]

theorem joins_symbol {operator : BinaryOperator} (h : operator.IsPlain) :
    dialect.Joins (lexemes operator.symbol) operator.piece := by
  refine Dialect.joins_lexemes h ?_
  show (level? operator.symbol).map (Piece.joint operator.symbol) = _
  rw [level?_symbol h]
  rfl

theorem joined {operator : BinaryOperator} (hplain : operator.IsPlain) {whole : String}
    (h : Spelling text operators tokens row) (h' : Spelling text' operators' tokens' row')
    (hwhole : Spans Opens Ends whole.toList (tokens ++ (lexemes operator.symbol ++ tokens'))) :
    Spelling whole (operators ++ operator :: operators')
      (tokens ++ (lexemes operator.symbol ++ tokens')) (row ++ operator.piece :: row') where
  spans := hwhole
  writes := .joined h.writes (joins_symbol hplain) h'.writes
  isRun := h.isRun.append rfl h'.isRun
  levels_eq := by
    rw [BinaryOperator.piece, rowLevels_joint, h.levels_eq, h'.levels_eq, List.map_append,
      List.map_cons]
  plain := by
    simpa [or_imp, forall_and] using ⟨h.plain, hplain, h'.plain⟩
  single hnil := by simp at hnil

/-- A call is one operand, whatever its argument. -/
theorem called {whole member : String} (hmember : IsTerm member.toList)
    (h : Spelling text [] tokens row) (h' : Spelling text' operators' tokens' row')
    (hwhole : Spans Opens Ends whole.toList
      (tokens ++ (["."] ++ ([member] ++ (["("] ++ (tokens' ++ [")"])))))) :
    ∃ o, Spelling whole [] (tokens ++ (["."] ++ ([member] ++ (["("] ++ (tokens' ++ [")"])))))
      [.operand o] := by
  obtain ⟨receiver, rfl⟩ := h.single rfl
  obtain ⟨o, ho⟩ := exists_rowOutline h'.isRun
  exact ⟨.joined receiver ("." ++ member) o, hwhole, .called h.writes rfl hmember h'.writes ho,
    isRun_operand _, rfl, nofun, fun _ => ⟨_, rfl⟩⟩

/-- The row of a pair is that of its two sides with `to` between them. -/
theorem outline?_pair (h : Spelling text operators tokens row)
    (h' : Spelling text' operators' tokens' row') :
    outline? (tokens ++ (["to"] ++ tokens')) = rowOutline (row ++ .joint "to" 6 :: row') := by
  have hto : dialect.Joins ["to"] (.joint "to" 6) := .symbol (by decide) rfl
  exact (Dialect.Writes.joined h.writes hto h'.writes).read?_eq

theorem step_comma (s : Dialect.State Piece Outline) : dialect.step s "," = none := by
  obtain ⟨outer, row, place⟩ := s
  cases place <;> rfl

/-- No argument has a comma. -/
theorem comma_not_mem (h : Spelling text operators tokens row) : "," ∉ tokens :=
  h.writes.not_mem step_comma

end Spelling

end Argument

end QuovaKotlin.Kotlin

namespace QuovaKotlin.Ast

open Kotlin (Outline Piece rowOutline)
open Kotlin.Argument (Spelling)
open Lexical (Spans Opens Ends lexemes)

/-- These are looser than the named operators in Kotlin. -/
def BinaryOperator.isLoose : BinaryOperator → Bool
  | elvis | check _ | comparison _ | equality _ | conjunction | disjunction => true
  | _ => false

theorem BinaryOperator.six_le_level {operator : BinaryOperator} (h : operator.IsPlain) :
    6 ≤ operator.level ↔ ¬ operator.isLoose := by
  cases operator with
  | spaceship => exact absurd h id
  | product o | sum o | check o | shift o | comparison o | equality o => cases o <;> decide
  | range | elvis | bitAnd | bitXor | bitOr | conjunction | disjunction => decide

theorem BinaryOperator.six_lt_level {operator : BinaryOperator} (h : operator.IsPlain) :
    6 < operator.level ↔ ¬ operator.isLoose ∧ ¬ operator.isNamed := by
  cases operator with
  | spaceship => exact absurd h id
  | product o | sum o | check o | shift o | comparison o | equality o => cases o <;> decide
  | range | elvis | bitAnd | bitXor | bitOr | conjunction | disjunction => decide

namespace Expression

/-- The operators of an infix expression that stand outside all parentheses of its text. A three-way
comparison is a call there. -/
def openOperators : Expression → List BinaryOperator
  | .binary operator left right =>
    if operator = .spaceship then []
    else
      (if left.priority > operator.priority then [] else left.openOperators) ++ operator ::
        (if right.priority > operator.priority then [] else right.openOperators)
  | _ => []

/-- Those of an operand, with the parentheses that it takes. -/
def openUnder (e : Expression) (enclosing : Int) : List BinaryOperator :=
  if e.priority > enclosing then [] else e.openOperators

/-- The text of an expression is read as a row. -/
def Laid (e : Expression) : Prop :=
  ∃ tokens row, Spelling e.kotlin e.openOperators tokens row

theorem Laid.under {e : Expression} (h : e.Laid) (enclosing : Int) :
    ∃ tokens row, Spelling (e.rendered.under enclosing) (e.openUnder enclosing) tokens row := by
  obtain ⟨tokens, row, h⟩ := h
  by_cases hlt : e.priority > enclosing
  · have htext : e.rendered.under enclosing = "(" ++ e.kotlin ++ ")" := if_pos hlt
    obtain ⟨o, hclosed⟩ := h.enclosed
    rw [htext, openUnder, if_pos hlt]
    exact ⟨_, _, hclosed⟩
  · have htext : e.rendered.under enclosing = e.kotlin := if_neg hlt
    rw [htext, openUnder, if_neg hlt]
    exact ⟨tokens, row, h⟩

/-- The receiver of a call has no operator outside parentheses. -/
theorem openUnder_suffixed (e : Expression) : e.openUnder Priority.suffixed = [] := by
  unfold openUnder
  split
  · rfl
  · next hle =>
    cases e with
    | binary operator left right =>
      have hlt : Priority.suffixed < operator.priority :=
        Int.lt_trans (by decide) operator.prefixed_lt_priority
      exact absurd hlt hle
    | _ => rfl

theorem Laid.binary {operator : BinaryOperator} {left right : Expression} (hl : left.Laid)
    (hr : right.Laid) : (Expression.binary operator left right).Laid := by
  by_cases hspaceship : operator = .spaceship
  · subst hspaceship
    obtain ⟨ts, row, hleft⟩ := hl.under Priority.suffixed
    obtain ⟨us, row', hright⟩ := hr
    rw [openUnder_suffixed] at hleft
    have hmember : Lexical.IsTerm "compareTo".toList :=
      Lexical.isTerm_word (by decide) (by decide)
    obtain ⟨o, hcall⟩ :=
      hleft.called hmember hright (spans_spaceship hleft.spans hright.spans)
    exact ⟨_, _, hcall⟩
  · have hplain := isPlain_of_ne_spaceship hspaceship
    obtain ⟨ts, row, hleft⟩ := hl.under operator.priority
    obtain ⟨us, row', hright⟩ := hr.under operator.priority
    have hopen : (Expression.binary operator left right).openOperators =
        left.openUnder operator.priority ++ operator :: right.openUnder operator.priority :=
      if_neg hspaceship
    exact ⟨_, _, hopen ▸ hleft.joined hplain hright
      (spans_symbol hplain hleft.spans hright.spans)⟩

theorem Legible.laid {e : Expression} (h : e.Legible) : e.Laid := by
  induction h with
  | integer hreads => exact ⟨_, _, .term (Lexical.isTerm_integerLiteral hreads)⟩
  | identifier hname => exact ⟨_, _, .term (isTerm_identifier hname)⟩
  | parenthesized _ ih =>
    obtain ⟨tokens, row, hinner⟩ := ih
    obtain ⟨o, hclosed⟩ := hinner.enclosed
    exact ⟨_, _, hclosed⟩
  | binary _ _ _ ihl ihr => exact ihl.binary ihr

end Expression

namespace DictionaryEntry

/-- No operator of the key outside parentheses is looser than `to`, and every one of the value is
tighter. -/
def KeepsApart (entry : DictionaryEntry) : Prop :=
  (∀ operator ∈ entry.key.openOperators, ¬ operator.isLoose) ∧
    ∀ operator ∈ entry.value.openOperators, ¬ operator.isLoose ∧ ¬ operator.isNamed

/-- The key, the value and the argument of an entry can be read, and the argument is the pair of the
other two exactly where they keep apart. -/
def ReadAs (entry : DictionaryEntry) (argument : List String) : Prop :=
  ∃ key value whole, Kotlin.Argument.outline? (lexemes entry.key.kotlin) = some key ∧
    Kotlin.Argument.outline? (lexemes entry.value.kotlin) = some value ∧
    Kotlin.Argument.outline? argument = some whole ∧
    (whole = .joined key "to" value ↔ entry.KeepsApart)

variable {entry : DictionaryEntry} {ts us : List String} {row row' : List Piece}

theorem spans_entry (hkey : Spans Opens Ends entry.key.kotlin.toList ts)
    (hvalue : Spans Opens Ends entry.value.kotlin.toList us) :
    Spans Opens Ends entry.kotlin.toList (ts ++ (["to"] ++ us)) := by
  obtain ⟨key, value⟩ := entry
  have hto : Lexical.IsTerm "to".toList := Lexical.isTerm_word (by decide) (by decide)
  have htext : (DictionaryEntry.mk key value).kotlin.toList =
      key.kotlin.toList ++ ([' '] ++ ("to".toList ++ ([' '] ++ value.kotlin.toList))) := by
    show (key.kotlin ++ " to " ++ value.kotlin).toList = _
    simp only [String.toList_append, List.append_assoc]
    rfl
  rw [htext]
  exact hkey.spaced hto hvalue

theorem readAs_pair (hkey : Spelling entry.key.kotlin entry.key.openOperators ts row)
    (hvalue : Spelling entry.value.kotlin entry.value.openOperators us row') :
    entry.ReadAs (ts ++ (["to"] ++ us)) := by
  obtain ⟨key, hk⟩ := Kotlin.exists_rowOutline hkey.isRun
  obtain ⟨value, hv⟩ := Kotlin.exists_rowOutline hvalue.isRun
  have hrun : Precedence.IsRun Piece.role (row ++ .joint "to" 6 :: row') :=
    hkey.isRun.append rfl hvalue.isRun
  obtain ⟨whole, hw⟩ := Kotlin.exists_rowOutline hrun
  refine ⟨key, value, whole, hkey.outline?_lexemes.trans hk, hvalue.outline?_lexemes.trans hv,
    (hkey.outline?_pair hvalue).trans hw, ?_⟩
  have hjoined : rowOutline (row ++ .joint "to" 6 :: row') = some (.joined key "to" value) ↔ _ :=
    Kotlin.rowOutline_joined_iff hk hv
  rw [hw, Option.some_inj, hkey.levels_eq, hvalue.levels_eq, List.forall_mem_map,
    List.forall_mem_map] at hjoined
  rw [hjoined]
  exact and_congr
    (forall₂_congr fun operator hmem => BinaryOperator.six_le_level (hkey.plain operator hmem))
    (forall₂_congr fun operator hmem => BinaryOperator.six_lt_level (hvalue.plain operator hmem))

/-- The tokens of an entry are read as its argument. -/
theorem exists_argument (hkey : entry.key.Laid) (hvalue : entry.value.Laid) :
    ∃ argument, Spans Opens Ends entry.kotlin.toList argument ∧ argument ≠ [] ∧ "," ∉ argument ∧
      entry.ReadAs argument := by
  obtain ⟨ts, row, hkey⟩ := hkey
  obtain ⟨us, row', hvalue⟩ := hvalue
  refine ⟨ts ++ (["to"] ++ us), spans_entry hkey.spans hvalue.spans, by simp, ?_,
    readAs_pair hkey hvalue⟩
  simp [hkey.comma_not_mem, hvalue.comma_not_mem]

end DictionaryEntry

theorem arguments?_of_intercalate {name : String} {arguments : List (List String)}
    (hne : ∀ argument ∈ arguments, argument ≠ [])
    (hcomma : ∀ argument ∈ arguments, "," ∉ argument) :
    Kotlin.arguments? name (name :: "(" :: ([","].intercalate arguments ++ [")"])) =
      some arguments := by
  have hlast : ([","].intercalate arguments ++ [")"]).getLast? = some ")" := List.getLast?_concat
  have hfront : ([","].intercalate arguments ++ [")"]).dropLast = [","].intercalate arguments :=
    List.dropLast_concat
  rw [Kotlin.arguments?]
  simp only [hlast, hfront, and_self, if_true, Option.some_inj]
  cases arguments with
  | nil => rfl
  | cons argument rest =>
    obtain ⟨token, tokens, rfl⟩ :=
      List.exists_cons_of_ne_nil (hne argument List.mem_cons_self)
    have hsome : [","].intercalate ((token :: tokens) :: rest) ≠ [] := by
      cases rest <;> simp [List.intercalate]
    rw [if_neg hsome]
    exact List.splitOn_intercalate "," hcomma (List.cons_ne_nil _ _)

theorem lexemes_dictionary {entries : List DictionaryEntry} {arguments : List (List String)}
    (h : List.Forall₂ (fun entry argument => Spans Opens Ends entry.kotlin.toList argument)
      entries arguments) :
    lexemes (Expression.dictionary entries).kotlin =
      "hashMapOf" :: "(" :: ([","].intercalate arguments ++ [")"]) := by
  have htext : (Expression.dictionary entries).kotlin.toList =
      ('h' :: "ashMapOf".toList) ++
        (['('] ++ ((Text.commas (entries.map DictionaryEntry.kotlin)).toList ++ [')'])) := by
    show ("hashMapOf(" ++ Text.commas (DictionaryEntry.kotlinEach entries) ++ ")").toList = _
    rw [DictionaryEntry.kotlinEach_eq_map, String.toList_append, String.toList_append,
      List.append_assoc]
    rfl
  have hlist : ∃ before : List Char → Prop,
      Spans before Ends ((Text.commas (entries.map DictionaryEntry.kotlin)).toList ++ [')'])
        ([","].intercalate arguments ++ [")"]) := by
    cases h with
    | nil => exact ⟨_, Spans.closing⟩
    | cons hfirst hrest =>
      have hcommas := Spans.commas (List.forall₂_map_left_iff.mpr (.cons hfirst hrest))
        (List.cons_ne_nil _ _)
      exact ⟨_, hcommas.append Spans.closing⟩
  obtain ⟨before, hlist⟩ := hlist
  have hcall := Spans.applied (x := 'h') (w := "ashMapOf".toList) (by decide) (by decide) hlist
  rw [← htext] at hcall
  exact hcall.lexemes_eq

/-- Every argument of a printed dictionary can be read, and it is the pair of the key and the value
of its entry exactly where no operator of the key outside parentheses is looser than `to` and every
such operator of the value is tighter. -/
theorem dictionary_entries_apart_iff {text : String} {file : SourceFile}
    (h : Source.parse text = .ok file) {entries : List DictionaryEntry}
    (hpart : file.Contains (.expression (.dictionary entries)))
    (hentries : ∀ entry ∈ entries, entry.key.OfIntegers ∧ entry.value.OfIntegers) :
    ∃ arguments,
      Kotlin.arguments? "hashMapOf" (lexemes (Expression.dictionary entries).kotlin) =
        some arguments ∧
      List.Forall₂ DictionaryEntry.ReadAs entries arguments := by
  have hargument : ∀ entry ∈ entries, ∃ argument, Spans Opens Ends entry.kotlin.toList argument ∧
      argument ≠ [] ∧ "," ∉ argument ∧ entry.ReadAs argument := by
    intro entry hmem
    obtain ⟨hkey, hvalue⟩ := hentries entry hmem
    have hentry := hpart.within (.child (List.mem_map_of_mem hmem) (.self (.dictionaryEntry entry)))
    have hkeyPart := hentry.within (.child List.mem_cons_self (.self _))
    have hvaluePart :=
      hentry.within (.child (List.mem_cons_of_mem _ List.mem_cons_self) (.self _))
    exact DictionaryEntry.exists_argument (legible_of_contains h hkey hkeyPart).laid
      (legible_of_contains h hvalue hvaluePart).laid
  choose! argument hspans hne hcomma hread using hargument
  have hlexemes : lexemes (Expression.dictionary entries).kotlin =
      "hashMapOf" :: "(" :: ([","].intercalate (entries.map argument) ++ [")"]) :=
    lexemes_dictionary (List.forall₂_map_right_iff.mpr (List.forall₂_same.mpr hspans))
  refine ⟨entries.map argument, ?_, List.forall₂_map_right_iff.mpr (List.forall₂_same.mpr hread)⟩
  rw [hlexemes]
  exact arguments?_of_intercalate (List.forall_mem_map.mpr hne) (List.forall_mem_map.mpr hcomma)

/-- The tree of `var v = {a ?? b: c, d | e: f};`. -/
def entriesTree : Reading.Node :=
  Source.propertyTree (.node .expression ⟨8, 29⟩ [.node .operatorExpression ⟨8, 29⟩ [
    .node .literal ⟨8, 29⟩ [.node .initializerList ⟨8, 29⟩ [
      .node .dictionaryEntry ⟨9, 18⟩ [
        .node .expression ⟨9, 15⟩ [.node .operatorExpression ⟨9, 15⟩ [
          .token .simpleIdentifier ⟨9, 10⟩ "a", .token .elvisOperator ⟨11, 13⟩ "??",
          .token .simpleIdentifier ⟨14, 15⟩ "b"]],
        Source.nameTree 17 "c"],
      .node .dictionaryEntry ⟨20, 28⟩ [
        .node .expression ⟨20, 25⟩ [.node .operatorExpression ⟨20, 25⟩ [
          .token .simpleIdentifier ⟨20, 21⟩ "d", .token .bitOrOperator ⟨22, 23⟩ "|",
          .token .simpleIdentifier ⟨24, 25⟩ "e"]],
        Source.nameTree 27 "f"]]]]]) 29

def elvisEntry : DictionaryEntry :=
  ⟨.binary .elvis (.identifier "a") (.identifier "b"), .identifier "c"⟩

def bitsEntry : DictionaryEntry :=
  ⟨.binary .bitOr (.identifier "d") (.identifier "e"), .identifier "f"⟩

def entriesFile : SourceFile where
  shebang := none
  package := none
  imports := [.standardLibrary, .integerAlias]
  declarations := [.property ⟨[], .internalAccess, none, [], none,
    [⟨"v", some (.dictionary [elvisEntry, bitsEntry]), none, none, none⟩]⟩]

theorem parse_entries :
    Source.parse "var v = {a ?? b: c, d | e: f};" = .ok entriesFile :=
  Source.parse_of_toOption entriesTree (by decide +kernel) rfl

theorem entriesFile_contains :
    entriesFile.Contains (.expression (.dictionary [elvisEntry, bitsEntry])) :=
  ⟨_, List.mem_cons_self, .child List.mem_cons_self
    (.child List.mem_cons_self (.child List.mem_cons_self (.self _)))⟩

theorem entries_ofIntegers :
    ∀ entry ∈ [elvisEntry, bitsEntry], entry.key.OfIntegers ∧ entry.value.OfIntegers := by
  simp only [List.forall_mem_cons]
  exact ⟨⟨.binary _ (.identifier _) (.identifier _), .identifier _⟩,
    ⟨.binary _ (.identifier _) (.identifier _), .identifier _⟩, nofun⟩

/-- A key with `?:` loses its right operand to the pair, and one with `or` does not. -/
theorem elvisEntry_misread_bitsEntry_read :
    Source.parse "var v = {a ?? b: c, d | e: f};" = .ok entriesFile ∧
    entriesFile.Contains (.expression (.dictionary [elvisEntry, bitsEntry])) ∧
    (∀ entry ∈ [elvisEntry, bitsEntry], entry.key.OfIntegers ∧ entry.value.OfIntegers) ∧
    (Expression.dictionary [elvisEntry, bitsEntry]).kotlin =
      "hashMapOf(a ?: b to c, d or e to f)" ∧
    ∃ first second,
      Kotlin.arguments? "hashMapOf"
        (lexemes (Expression.dictionary [elvisEntry, bitsEntry]).kotlin) = some [first, second] ∧
      (∃ key value whole,
        Kotlin.Argument.outline? (lexemes elvisEntry.key.kotlin) = some key ∧
        Kotlin.Argument.outline? (lexemes elvisEntry.value.kotlin) = some value ∧
        Kotlin.Argument.outline? first = some whole ∧ whole ≠ .joined key "to" value) ∧
      ∃ key value,
        Kotlin.Argument.outline? (lexemes bitsEntry.key.kotlin) = some key ∧
        Kotlin.Argument.outline? (lexemes bitsEntry.value.kotlin) = some value ∧
        Kotlin.Argument.outline? second = some (.joined key "to" value) := by
  have helvis : ¬ elvisEntry.KeepsApart := fun h => h.1 .elvis List.mem_cons_self rfl
  have hbits : bitsEntry.KeepsApart := by
    refine ⟨fun operator hmem => ?_, nofun⟩
    obtain rfl := List.mem_singleton.mp hmem
    exact Bool.false_ne_true
  obtain ⟨arguments, harguments, hread⟩ :=
    dictionary_entries_apart_iff parse_entries entriesFile_contains entries_ofIntegers
  obtain ⟨first, _, ⟨key, value, whole, hkey, hvalue, hwhole, hiff⟩, hrest, rfl⟩ :=
    List.forall₂_cons_left_iff.mp hread
  obtain ⟨second, _, ⟨key', value', whole', hkey', hvalue', hwhole', hiff'⟩, hnil, rfl⟩ :=
    List.forall₂_cons_left_iff.mp hrest
  obtain rfl := List.forall₂_nil_left_iff.mp hnil
  refine ⟨parse_entries, entriesFile_contains, entries_ofIntegers, rfl, first, second, harguments,
    ⟨key, value, whole, hkey, hvalue, hwhole, fun heq => helvis (hiff.mp heq)⟩,
    key', value', hkey', hvalue', ?_⟩
  rw [hwhole', hiff'.mpr hbits]

end QuovaKotlin.Ast

import QuovaKotlin.Proofs.SourceRows

/-!
# The Kotlin text of a plain expression, lexeme by lexeme

The Kotlin text of a well grouped expression is the row of the Kotlin spellings of its marks. Put
beside the source, this says that rendering replaces the spelling of each operator and keeps all
parentheses; the only ones that it adds keep two signs apart.
-/

set_option autoImplicit false

namespace QuovaKotlin.Lexical

open Peg Ast

/-- Neither a word nor a number goes on here. -/
def Ends (view : List Char) : Prop :=
  OffWord view ∧ Closes view

/-- A word or a parenthesis starts here. -/
def OpensTerm (view : List Char) : Prop :=
  ∃ x ∈ view.head?, isWordChar x ∨ x = '('

theorem OpensTerm.opens {view : List Char} (h : OpensTerm view) : Opens view := by
  obtain ⟨x, hx, hword | rfl⟩ := h
  · exact ⟨x, hx, by simp [isOpening, hword]⟩
  · exact ⟨'(', hx, by decide⟩

/-- The text `w` is a segment wherever it stands, and it starts with no layout. -/
structure Spans (before after : List Char → Prop) (w : List Char) (ts : List String) : Prop where
  segment {c d : Cursor} : c.Passes w d → Segment before after c ts d
  solid {c d : Cursor} : c.Passes w d → c.skipLayout = c

namespace Spans

variable {before between after : List Char → Prop} {u v w : List Char} {ts us : List String}

theorem append (h : Spans before between u ts) (h' : Spans between after v us) :
    Spans before after (u ++ v) (ts ++ us) where
  segment hpasses := by
    obtain ⟨e, hu, hv⟩ := passes_split hpasses
    exact (h.segment hu).append (h'.segment hv)
  solid hpasses := by
    obtain ⟨e, hu, -⟩ := passes_split hpasses
    exact h.solid hu

theorem mono {before' after' : List Char → Prop} (h : Spans before after w ts)
    (hbefore : ∀ view, before view → before' view) (hafter : ∀ view, after' view → after view) :
    Spans before' after' w ts where
  segment hpasses := (h.segment hpasses).mono hbefore hafter
  solid := h.solid

theorem term (hw : IsTerm w) : Spans OpensTerm Ends w [.ofList w] := by
  obtain ⟨x, u, rfl, hx⟩ := hw.head
  have hlayout := not_layout_of_isWordChar hx
  refine ⟨fun hpasses => ?_, fun hpasses => skipLayout_of_passes hpasses hlayout⟩
  refine .one (skipLayout_of_passes hpasses hlayout) hpasses (List.cons_ne_nil x u) ?_ ?_
  · exact fun stop _ hview => hw.lexeme_eq hview.1 hview.2
  · exact fun view _ => ⟨x, rfl, .inl hx⟩

theorem opening : Spans OpensTerm after ['('] ["("] where
  segment hpasses := segment_opening hpasses fun _ => ⟨'(', rfl, .inr rfl⟩
  solid hpasses := skipLayout_of_passes hpasses (by decide)

theorem closing : Spans Ends after [')'] [")"] where
  segment hpasses := segment_closing hpasses fun _ => ⟨by simp [OffWord]; decide, rfl⟩
  solid hpasses := skipLayout_of_passes hpasses (by decide)

theorem parenthesized (h : Spans Opens Ends w ts) :
    Spans OpensTerm Ends ('(' :: (w ++ [')'])) ("(" :: (ts ++ [")"])) :=
  opening.append (h.append closing)

/-- A prefix operator. Behind `+` and `-` there must be a word or a parenthesis. -/
theorem sign {operator : PrefixOperator} (hplain : operator.IsPlain)
    (hafter : ∀ view, after view → Opens view)
    (hterm : operator.isSign → ∀ view, after view → OpensTerm view) :
    Spans Opens after operator.symbol.toList [operator.symbol] := by
  rw [operator.symbol_eq]
  obtain ⟨x, w, hsymbol, hword, hopening, hlayout, hself⟩ := Source.symbol_chars hplain
  have hsign : x :: w = ['+'] ∨ x :: w = ['-'] → operator.isSign := by
    rw [← hsymbol]
    cases operator <;> decide
  have hstring : operator.sourceSymbol = .ofList (x :: w) := by rw [← hsymbol, String.ofList_toList]
  rw [hsymbol, hstring]
  refine ⟨fun hpasses => ?_, fun hpasses => skipLayout_of_passes hpasses hlayout⟩
  refine .symbol hpasses (skipLayout_of_passes hpasses hlayout) hword hself ?_ ?_
  · intro stop hview y hy
    obtain ⟨z, hz, hzopening⟩ := hafter _ hview
    obtain rfl : z = y := Option.some.inj (hz.symm.trans hy)
    -- A sign is followed by a term, which starts with no sign.
    have hnot : x :: w = ['+'] ∨ x :: w = ['-'] → z ≠ '+' ∧ z ≠ '-' := by
      intro hw
      obtain ⟨z', hz', hterm⟩ := hterm (hsign hw) _ hview
      obtain rfl : z' = z := Option.some.inj (hz'.symm.trans hy)
      constructor <;> rintro rfl <;> exact absurd hterm (by decide)
    refine not_extends_of_isOpening (List.cons_ne_nil x w) hzopening ?_ ?_
    · exact fun hz hw => (hnot (.inl hw)).1 hz
    · exact fun hz hw => (hnot (.inr hw)).2 hz
  · exact fun view _ => ⟨x, rfl, hopening⟩

end Spans

/-- The view goes on with a blank. -/
def Blank (view : List Char) : Prop :=
  ' ' ∈ view.head?

theorem segment_blank {before after : List Char → Prop} {c d : Cursor} (hpasses : c.Passes [' '] d)
    (hskip : d.skipLayout = d) (hbefore : ∀ view, before (' ' :: view)) :
    Segment before after c [] d where
  le := by
    have hindex := hpasses.index_eq
    omega
  scans _ _ := .layout ((hpasses.skipLayout_eq rfl).trans hskip)
  front hstop _ := by
    rw [upTo_of_passes hpasses hstop]
    exact hbefore _

theorem Blank.offWord {view : List Char} (h : Blank view) : OffWord view := by
  intro x hx
  obtain rfl : ' ' = x := Option.some.inj (h.symm.trans hx)
  decide

theorem Blank.opens {view : List Char} (h : Blank view) : Opens view :=
  ⟨' ', h, by decide⟩

theorem segment_symbolic {before : List Char → Prop} {c d : Cursor} {s : String}
    (hs : Source.isSymbolic s) (hpasses : c.Passes s.toList d) (hskip : c.skipLayout = c)
    (hbefore : ∀ view, before (s.toList ++ view)) : Segment before Blank c (lexemes s) d := by
  unfold Source.isSymbolic at hs
  split at hs
  · cases hs
  · next x w hchars =>
    simp only [Bool.and_eq_true, Bool.not_eq_true', decide_eq_true_eq] at hs
    obtain ⟨⟨⟨hword, hself⟩, hlexemes⟩, -⟩ := hs
    have hstring : s = .ofList (x :: w) := by rw [← hchars, String.ofList_toList]
    rw [hchars] at hpasses hbefore
    rw [hlexemes, hstring]
    refine .symbol hpasses hskip (by simp [hword]) hself ?_ fun view _ => hbefore view
    intro stop hview y hy
    obtain rfl : ' ' = y := Option.some.inj (hview.symm.trans hy)
    exact not_extends_of_isOpening (List.cons_ne_nil x w) (by decide)
      (fun h => absurd h (by decide)) fun h => absurd h (by decide)

theorem segment_word {c d : Cursor} {s : String} (hs : IsTerm s.toList)
    (hpasses : c.Passes s.toList d) : Segment OpensTerm Blank c [s] d := by
  have hsegment := (Spans.term hs).segment hpasses
  rw [String.ofList_toList] at hsegment
  exact hsegment.mono (fun _ h => h) fun _ h => ⟨h.offWord, h.opens.closes⟩

theorem segment_negated {c d : Cursor} {s : String} (hs : IsTerm s.toList)
    (hpasses : c.Passes ('!' :: s.toList) d) :
    Segment (fun _ => True) Blank c ["!", s] d := by
  obtain ⟨e, hmark, hpasses⟩ := passes_split (u := ['!']) hpasses
  have hskip := skipLayout_of_passes hmark (by decide)
  have hfirst : Segment (fun _ => True) Opens c ["!"] e :=
    segment_symbol hmark hskip (by decide) (by decide) (fun h => absurd h (by decide))
      (fun h => absurd h (by decide)) fun _ _ => trivial
  exact hfirst.append ((segment_word hs hpasses).mono (fun _ h => h.opens) fun _ h => h)

/-- The symbol of an infix operator between blanks. -/
theorem segment_kotlinSymbol {operator : BinaryOperator} (hplain : operator.IsPlain)
    {c d : Cursor} (hpasses : c.Passes operator.symbol.toList d) (hskip : c.skipLayout = c) :
    Segment (fun _ => True) Blank c (lexemes operator.symbol) d := by
  have hsymbolic : Source.isSymbolic operator.symbol →
      Segment (fun _ => True) Blank c (lexemes operator.symbol) d :=
    fun hs => segment_symbolic hs hpasses hskip fun _ => trivial
  have hword : IsTerm operator.symbol.toList →
      Segment (fun _ => True) Blank c [operator.symbol] d :=
    fun hs => (segment_word hs hpasses).mono (fun _ _ => trivial) fun _ h => h
  cases operator with
  | product o => cases o <;> exact hsymbolic (by decide)
  | sum o => cases o <;> exact hsymbolic (by decide)
  | comparison o => cases o <;> exact hsymbolic (by decide)
  | equality o => cases o <;> exact hsymbolic (by decide)
  | range | elvis | conjunction | disjunction => exact hsymbolic (by decide)
  | shift o => cases o <;> exact hword (isTerm_word (by decide) (by decide))
  | bitAnd | bitXor | bitOr => exact hword (isTerm_word (by decide) (by decide))
  | check o =>
    cases o with
    | inside | ofType => exact hword (isTerm_word (by decide) (by decide))
    | notInside =>
      have hin : IsTerm "in".toList := isTerm_word (by decide) (by decide)
      exact segment_negated hin hpasses
    | notOfType =>
      have his : IsTerm "is".toList := isTerm_word (by decide) (by decide)
      exact segment_negated his hpasses
  | spaceship => exact hplain.elim

/-- A symbol with a blank behind it starts no comment. -/
theorem skipLayout_of_joint {operator : BinaryOperator} {c d e : Cursor}
    (hpasses : c.Passes operator.symbol.toList d) (hblank : d.Passes [' '] e) :
    c.skipLayout = c := by
  have hhead : operator = .product .divide ∨
      ∃ x w, operator.symbol.toList = x :: w ∧ ¬ Layout.isBlank x ∧ x ≠ '/' := by
    cases operator with
    | product o =>
      cases o with
      | divide => exact .inl rfl
      | times | modulo => exact .inr ⟨_, _, rfl, by decide, by decide⟩
    | sum o | comparison o | equality o | shift o | check o =>
      cases o <;> exact .inr ⟨_, _, rfl, by decide, by decide⟩
    | range | elvis | bitAnd | bitXor | bitOr | spaceship | conjunction | disjunction =>
      exact .inr ⟨_, _, rfl, by decide, by decide⟩
  rcases hhead with rfl | ⟨x, w, hchars, hlayout⟩
  · obtain ⟨index, rest⟩ := c
    obtain rfl : rest = '/' :: ' ' :: e.rest := by
      have hrest := hpasses.rest_eq
      rw [hblank.rest_eq] at hrest
      exact hrest
    simp [Cursor.skipLayout, Layout.skipFrom, Layout.isBlank]
  · rw [hchars] at hpasses
    exact skipLayout_of_passes hpasses hlayout

/-- An infix operator between blanks, in front of an operand. -/
theorem segment_spaced {operator : BinaryOperator} (hplain : operator.IsPlain) {c d : Cursor}
    (hpasses : c.Passes ([' '] ++ (operator.symbol.toList ++ [' '])) d) (hskip : d.skipLayout = d) :
    Segment Ends Opens c (lexemes operator.symbol) d := by
  obtain ⟨c₁, hlead, hpasses⟩ := passes_split hpasses
  obtain ⟨c₂, hsymbol, htrail⟩ := passes_split hpasses
  have hsolid := skipLayout_of_joint hsymbol htrail
  have hfirst : Segment Ends (fun _ => True) c [] c₁ := by
    refine segment_blank hlead hsolid fun view => ⟨?_, rfl⟩
    exact Blank.offWord rfl
  have hlast : Segment Blank Opens c₂ [] d := segment_blank htrail hskip fun _ => rfl
  have hjoint := hfirst.append ((segment_kotlinSymbol hplain hsymbol hsolid).append hlast)
  rw [List.nil_append, List.append_nil] at hjoint
  exact hjoint

/-- A range has no blanks around its symbol. -/
theorem segment_range {c d : Cursor} (hpasses : c.Passes ['.', '.'] d) :
    Segment Ends Opens c [".."] d := by
  refine segment_symbol hpasses (skipLayout_of_passes hpasses (by decide)) (by decide) (by decide)
    (fun h => absurd h (by decide)) (fun h => absurd h (by decide)) fun view _ => ⟨?_, rfl⟩
  intro x hx
  obtain rfl : '.' = x := Option.some.inj hx
  decide

theorem Spans.joined {operator : BinaryOperator} {u v : List Char} {ts us : List String}
    {before : List Char → Prop} (hplain : operator.IsPlain) (hleft : Spans before Ends u ts)
    (hright : Spans Opens Ends v us) :
    Spans before Ends (u ++ ([' '] ++ (operator.symbol.toList ++ [' '])) ++ v)
      (ts ++ (lexemes operator.symbol ++ us)) where
  segment hpasses := by
    obtain ⟨c₂, hpasses, hv⟩ := passes_split hpasses
    obtain ⟨c₁, hu, hjoint⟩ := passes_split hpasses
    have hsegment := segment_spaced hplain hjoint (hright.solid hv)
    exact (hleft.segment hu).append (hsegment.append (hright.segment hv))
  solid hpasses := by
    obtain ⟨c₂, hpasses, -⟩ := passes_split hpasses
    obtain ⟨c₁, hu, -⟩ := passes_split hpasses
    exact hleft.solid hu

theorem Spans.ranged {u v : List Char} {ts us : List String} {before : List Char → Prop}
    (hleft : Spans before Ends u ts) (hright : Spans Opens Ends v us) :
    Spans before Ends (u ++ (['.', '.'] ++ v)) (ts ++ ([".."] ++ us)) :=
  hleft.append (Spans.append ⟨segment_range, fun h => skipLayout_of_passes h (by decide)⟩ hright)

/-- A text on its own, where nothing follows. -/
theorem Spans.lexemes_eq {before : List Char → Prop} {text : String} {ts : List String}
    (h : Spans before Ends text.toList ts) : lexemes text = ts := by
  have hpasses : Cursor.Passes ⟨0, text.toList⟩ text.toList ⟨text.toList.length, []⟩ :=
    ⟨(List.append_nil _).symm, (Nat.zero_add _).symm⟩
  have hend : Ends (upTo text.toList.length ⟨text.toList.length, []⟩) := by
    have hnil : upTo text.toList.length ⟨text.toList.length, []⟩ = [] := upTo_of_le (Nat.le_refl _)
    rw [hnil]
    exact ⟨by simp [OffWord], rfl⟩
  exact ((h.segment hpasses).scans (Nat.le_refl _) hend).lexemesBetween_eq (Nat.le_refl _)

end QuovaKotlin.Lexical

namespace QuovaKotlin.Ast

open Lexical

theorem Rendered.under_eq {r : Rendered} {enclosing : Int} (h : r.priority ≤ enclosing) :
    r.under enclosing = r.text :=
  if_neg (Int.not_lt.mpr h)

theorem PrefixOperator.before_eq {operator : PrefixOperator} (hplain : operator.IsPlain)
    {r : Rendered} (hr : r.priority ≤ Priority.prefixed) (isPrefixed : Bool) :
    operator.before r isPrefixed =
      if operator.isSign && isPrefixed then operator.symbol ++ "(" ++ r.text ++ ")"
      else operator.symbol ++ r.text := by
  unfold PrefixOperator.before
  rw [Rendered.under_eq hr]
  cases operator with
  | plus | minus => rw [PrefixOperator.isSign, Bool.true_and]
  | increment | decrement | not => rfl
  | complement | reference => exact hplain.elim

theorem Rendered.join_range {l r : Rendered} (hleft : l.priority ≤ Priority.range)
    (hright : r.priority ≤ Priority.range) :
    (Rendered.join .range l r).text = l.text ++ ".." ++ r.text := by
  change l.under Priority.range ++ ".." ++ r.under Priority.range = _
  rw [Rendered.under_eq hleft, Rendered.under_eq hright]

theorem Rendered.join_eq {operator : BinaryOperator} (hplain : operator.IsPlain)
    (hrange : operator ≠ .range) {l r : Rendered} (hleft : l.priority ≤ operator.priority)
    (hright : r.priority ≤ operator.priority) :
    (Rendered.join operator l r).text = l.text ++ " " ++ operator.symbol ++ " " ++ r.text := by
  unfold Rendered.join
  dsimp only
  split
  · exact absurd rfl hrange
  · exact hplain.elim
  · rw [Rendered.under_eq hleft, Rendered.under_eq hright]

namespace Expression

/-- The lexemes of a plain expression in Kotlin. -/
def target (e : Expression) : List String :=
  e.marks.flatMap Mark.kotlin

theorem target_parenthesized (inner : Expression) :
    (Expression.parenthesized inner).target = "(" :: (inner.target ++ [")"]) := by
  simp [target, marks, Mark.kotlin]

theorem target_prefixed (operator : PrefixOperator) (operand : Expression) :
    (Expression.prefixed operator operand).target =
      if operator.isSign && operand.isPrefixed then
        operator.symbol :: "(" :: (operand.target ++ [")"])
      else operator.symbol :: operand.target := by
  rw [target, marks, operator.symbol_eq]
  split <;> simp [Mark.kotlin, target]

theorem target_binary {operator : BinaryOperator} (hplain : operator.IsPlain)
    (left right : Expression) :
    (Expression.binary operator left right).target =
      left.target ++ (lexemes operator.symbol ++ right.target) := by
  rw [← BinaryOperator.kotlinSymbol_eq hplain.ne_spaceship]
  simp [target, marks, Mark.kotlin]

theorem spans_term {text : String} (h : IsTerm text.toList) :
    Spans OpensTerm Ends text.toList [text] := by
  have hspans := Spans.term h
  rw [String.ofList_toList] at hspans
  exact hspans

theorem spans_parenthesized {inner : Expression}
    (h : Spans Opens Ends inner.kotlin.toList inner.target) :
    Spans OpensTerm Ends (parenthesized inner).kotlin.toList (parenthesized inner).target := by
  have htext : (parenthesized inner).kotlin = "(" ++ inner.kotlin ++ ")" := rfl
  rw [htext, target_parenthesized, String.toList_append, String.toList_append, List.append_assoc]
  exact h.parenthesized

/-- A sign in front of a prefix expression takes parentheses, any other operand none. -/
theorem spans_prefixed {operator : PrefixOperator} {operand : Expression}
    (hplain : operator.IsPlain) (hle : operand.priority ≤ Priority.prefixed)
    (h : Spans Opens Ends operand.kotlin.toList operand.target)
    (hterm : ¬ operand.isPrefixed → Spans OpensTerm Ends operand.kotlin.toList operand.target) :
    Spans Opens Ends (prefixed operator operand).kotlin.toList
      (prefixed operator operand).target := by
  have htext : (prefixed operator operand).kotlin = _ :=
    PrefixOperator.before_eq (r := ⟨operand.priority, operand.kotlin⟩) hplain hle operand.isPrefixed
  rw [htext, target_prefixed]
  by_cases hsign : operator.isSign <;> by_cases hoperand : operand.isPrefixed
  · have hcond : (operator.isSign && operand.isPrefixed) = true := by simp [hsign, hoperand]
    rw [if_pos hcond, if_pos hcond, String.toList_append, String.toList_append,
      String.toList_append, List.append_assoc, List.append_assoc]
    exact (Spans.sign hplain (fun _ h => h.opens) fun _ _ h => h).append h.parenthesized
  · have hcond : ¬ (operator.isSign && operand.isPrefixed) = true := by simp [hoperand]
    rw [if_neg hcond, if_neg hcond, String.toList_append]
    exact (Spans.sign hplain (fun _ h => h.opens) fun _ _ h => h).append (hterm hoperand)
  · have hcond : ¬ (operator.isSign && operand.isPrefixed) = true := by simp [hsign]
    rw [if_neg hcond, if_neg hcond, String.toList_append]
    exact (Spans.sign hplain (fun _ h => h) fun h => absurd h hsign).append h
  · have hcond : ¬ (operator.isSign && operand.isPrefixed) = true := by simp [hsign]
    rw [if_neg hcond, if_neg hcond, String.toList_append]
    exact (Spans.sign hplain (fun _ h => h) fun h => absurd h hsign).append h

theorem spans_binary {operator : BinaryOperator} {left right : Expression}
    (hplain : operator.IsPlain) (hl : left.priority ≤ operator.priority)
    (hr : right.priority ≤ operator.priority)
    (hleft : Spans Opens Ends left.kotlin.toList left.target)
    (hright : Spans Opens Ends right.kotlin.toList right.target) :
    Spans Opens Ends (binary operator left right).kotlin.toList
      (binary operator left right).target := by
  by_cases hrange : operator = .range
  · subst hrange
    have htext : (binary .range left right).kotlin = _ :=
      Rendered.join_range (l := ⟨left.priority, left.kotlin⟩) (r := ⟨right.priority, right.kotlin⟩)
        hl hr
    rw [htext, target_binary hplain, String.toList_append, String.toList_append, List.append_assoc]
    exact hleft.ranged hright
  · have htext : (binary operator left right).kotlin = _ :=
      Rendered.join_eq hplain hrange (l := ⟨left.priority, left.kotlin⟩)
        (r := ⟨right.priority, right.kotlin⟩) hl hr
    rw [htext, target_binary hplain]
    simp only [String.toList_append, List.append_assoc]
    have hspans := Spans.joined hplain hleft hright
    simp only [List.append_assoc] at hspans
    exact hspans

/-- The Kotlin text of a well grouped expression is the row of the Kotlin spellings of its marks. -/
theorem Sound.spans {e : Expression} (h : e.Sound) :
    Spans Opens Ends e.kotlin.toList e.target ∧
      (¬ e.isPrefixed → e.priority ≤ Priority.prefixed →
        Spans OpensTerm Ends e.kotlin.toList e.target) := by
  have hof : ∀ {e : Expression}, Spans OpensTerm Ends e.kotlin.toList e.target →
      Spans Opens Ends e.kotlin.toList e.target ∧
        (¬ e.isPrefixed → e.priority ≤ Priority.prefixed →
          Spans OpensTerm Ends e.kotlin.toList e.target) :=
    fun h => ⟨h.mono (fun _ h => h.opens) fun _ h => h, fun _ _ => h⟩
  induction h with
  | literal _ hterm => exact hof (spans_term hterm)
  | identifier hterm => exact hof (spans_term hterm)
  | parenthesized _ ih => exact hof (spans_parenthesized ih.1)
  | prefixed hplain hle _ ih =>
    refine ⟨spans_prefixed hplain hle ih.1 fun hnot => ih.2 hnot hle, fun hnot => ?_⟩
    exact absurd rfl hnot
  | @binary operator _ _ hplain hl hr _ _ ihl ihr =>
    refine ⟨spans_binary hplain hl (Int.le_of_lt hr) ihl.1 ihr.1, fun _ hle => ?_⟩
    exact absurd hle (Int.not_le.mpr operator.prefixed_lt_priority)

theorem Sound.lexemes_eq {e : Expression} (h : e.Sound) : lexemes e.kotlin = e.target :=
  h.spans.1.lexemes_eq

end Expression

end QuovaKotlin.Ast

namespace QuovaKotlin.Source

open Lexical

/-- Rendering a plain expression replaces the spelling of its operators and nothing else: source and
Kotlin text are the same row of marks, and the only marks without a spelling in the source are
parentheses around a prefix expression behind a sign. -/
theorem kotlin_tokens_of_plain {text : String} {node : Reading.Node} {e : Ast.Expression}
    (h : Holds text node e) (hplain : e.Plain) :
    lexemesBetween text node.span.start node.span.stop = e.marks.flatMap Ast.Mark.source ∧
      lexemes e.kotlin = e.marks.flatMap Ast.Mark.kotlin :=
  ⟨h.lexemesBetween_eq hplain, (h.sound hplain).lexemes_eq⟩

/-- The expression of `var v = - -a << (b);`. -/
def shiftedSign : Reading.Node :=
  .node .expression ⟨8, 19⟩ [
    .node .operatorExpression ⟨8, 19⟩ [
      .token .prefixOperator ⟨8, 9⟩ "-", .token .prefixOperator ⟨10, 11⟩ "-",
      .token .simpleIdentifier ⟨11, 12⟩ "a", .token .shiftOperator ⟨13, 15⟩ "<<",
      .node .expression ⟨17, 18⟩ [
        .node .operatorExpression ⟨17, 18⟩ [.token .simpleIdentifier ⟨17, 18⟩ "b"]]]]

/-- `- -a << (b)`, read. -/
def shiftedSignRead : Ast.Expression :=
  .binary (.shift .left) (.prefixed .minus (.prefixed .minus (.identifier "a")))
    (.parenthesized (.identifier "b"))

theorem shiftedSign_holds : Holds "var v = - -a << (b);" shiftedSign shiftedSignRead := by
  have hparse : (grammar.parse .quovaFile "var v = - -a << (b);").toOption =
      some (propertyTree shiftedSign 19) := by decide +kernel
  have hread : (Reading.Readers.ofHeight 4).expression shiftedSign = .ok shiftedSignRead := rfl
  exact holds_of_propertyTree hparse rfl hread

theorem shiftedSign_plain : shiftedSignRead.Plain :=
  .binary trivial (.prefixed trivial (.prefixed trivial (.identifier "a")))
    (.parenthesized (.identifier "b"))

theorem shiftedSign_tokens :
    Holds "var v = - -a << (b);" shiftedSign shiftedSignRead ∧ shiftedSignRead.Plain ∧
      lexemesBetween "var v = - -a << (b);" 8 19 = ["-", "-", "a", "<<", "(", "b", ")"] ∧
      lexemes shiftedSignRead.kotlin = ["-", "(", "-", "a", ")", "shl", "(", "b", ")"] :=
  ⟨shiftedSign_holds, shiftedSign_plain,
    kotlin_tokens_of_plain shiftedSign_holds shiftedSign_plain⟩

end QuovaKotlin.Source

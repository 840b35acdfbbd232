import QuovaKotlin.Proofs.PlainExpressions
import QuovaKotlin.Proofs.Steps

/-!
# The marks of a plain expression, and its tokens in the source

A plain expression is a row of marks. Each mark has a spelling in the source and one in Kotlin. The
tokens that the grammar makes of operands and operators are scanned as the source spellings, each
under a condition on what follows it.
-/

set_option autoImplicit false

namespace QuovaKotlin.Ast

/-- What a plain expression is made of, from left to right. -/
inductive Mark
  | term (text : String)
  | opening
  | closing
  | sign (operator : PrefixOperator)
  | joint (operator : BinaryOperator)
  /-- A parenthesis that only the Kotlin text has. -/
  | addedOpening
  | addedClosing
  deriving DecidableEq, Repr

def Mark.source : Mark → List String
  | term text => [text]
  | opening => ["("]
  | closing => [")"]
  | sign operator => [operator.sourceSymbol]
  | joint operator => Lexical.lexemes operator.sourceSymbol
  | addedOpening | addedClosing => []

def Mark.kotlin : Mark → List String
  | term text => [text]
  | opening | addedOpening => ["("]
  | closing | addedClosing => [")"]
  | sign operator => [operator.sourceSymbol]
  | joint operator => Lexical.lexemes operator.kotlinSymbol

def PrefixOperator.isSign : PrefixOperator → Bool
  | plus | minus => true
  | _ => false

/-- The marks of a plain expression. Only a sign in front of a prefix expression adds any. -/
def Expression.marks : Expression → List Mark
  | .literal value => [.term value.kotlin]
  | .identifier name => [.term name]
  | .parenthesized inner => .opening :: (inner.marks ++ [.closing])
  | .prefixed operator operand =>
    if operator.isSign && operand.isPrefixed then
      .sign operator :: .addedOpening :: (operand.marks ++ [.addedClosing])
    else .sign operator :: operand.marks
  | .binary operator left right => left.marks ++ .joint operator :: right.marks
  | _ => []

/-- The lexemes of a plain expression in the source. -/
def Expression.source (e : Expression) : List String :=
  e.marks.flatMap Mark.source

theorem Expression.source_parenthesized (inner : Expression) :
    (Expression.parenthesized inner).source = "(" :: (inner.source ++ [")"]) := by
  simp [Expression.source, Expression.marks, Mark.source]

theorem Expression.source_prefixed (operator : PrefixOperator) (operand : Expression) :
    (Expression.prefixed operator operand).source = operator.sourceSymbol :: operand.source := by
  rw [Expression.source, Expression.marks]
  split <;> simp [Mark.source, Expression.source]

theorem Expression.source_binary (operator : BinaryOperator) (left right : Expression) :
    (Expression.binary operator left right).source =
      left.source ++ (Lexical.lexemes operator.sourceSymbol ++ right.source) := by
  simp [Expression.source, Expression.marks, Mark.source]

end QuovaKotlin.Ast

namespace QuovaKotlin.Lexical

open Peg

/-- An operand can start here. -/
def Opens (view : List Char) : Prop :=
  ∃ x ∈ view.head?, isOpening x

/-- A number can end here. -/
def Closes (view : List Char) : Prop :=
  fraction view = []

theorem opens_of_layout (x : Char) (view : List Char) (hx : Layout.isBlank x ∨ x = '/') :
    Opens (x :: view) := by
  refine ⟨x, rfl, ?_⟩
  rcases hx with hx | rfl
  · simp [isOpening, hx]
  · decide

theorem closes_of_layout (x : Char) (view : List Char) (hx : Layout.isBlank x ∨ x = '/') :
    Closes (x :: view) := by
  refine fraction_of_head ?_
  intro y hy
  obtain rfl : x = y := by simpa using hy
  rintro rfl
  rcases hx with hx | hx <;> exact absurd hx (by decide)

theorem head_upTo {stop : Nat} {c : Cursor} : ∀ x ∈ (upTo stop c).head?, x ∈ c.rest.head? := by
  intro x hx
  unfold upTo at hx
  rw [List.head?_take] at hx
  split at hx
  · cases hx
  · exact hx

theorem Opens.closes {view : List Char} (h : Opens view) : Closes view := by
  obtain ⟨x, hx, hopening⟩ := h
  refine fraction_of_head ?_
  intro y hy
  obtain rfl : x = y := Option.some.inj (hx.symm.trans hy)
  rintro rfl
  exact absurd hopening (by decide)

/-- A symbol that nothing in the view behind it extends. -/
theorem Segment.symbol {before after : List Char → Prop} {c d : Cursor} {x : Char} {w : List Char}
    (hpasses : c.Passes (x :: w) d) (hskip : c.skipLayout = c) (hx : ¬ isWordChar x)
    (hself : lexeme (x :: w) = x :: w)
    (hview : ∀ stop, after (upTo stop d) → ∀ y ∈ (upTo stop d).head?, ¬ Extends (x :: w) y)
    (hbefore : ∀ view, after view → before (x :: w ++ view)) :
    Segment before after c [.ofList (x :: w)] d :=
  .one hskip hpasses (List.cons_ne_nil x w)
    (fun stop _ hafter => lexeme_symbol hx hself (hview stop hafter)) hbefore

/-- A symbol in front of an operand. A sign must not be followed by the same sign. -/
theorem segment_symbol {before : List Char → Prop} {c d : Cursor} {x : Char} {w : List Char}
    (hpasses : c.Passes (x :: w) d) (hskip : c.skipLayout = c) (hx : ¬ isWordChar x)
    (hself : lexeme (x :: w) = x :: w) (hplus : x :: w = ['+'] → '+' ∉ d.rest.head?)
    (hminus : x :: w = ['-'] → '-' ∉ d.rest.head?)
    (hbefore : ∀ view, Opens view → before (x :: w ++ view)) :
    Segment before Opens c [.ofList (x :: w)] d := by
  refine .symbol hpasses hskip hx hself ?_ hbefore
  rintro stop ⟨y, hy, hopening⟩ z hz
  obtain rfl : y = z := Option.some.inj (hy.symm.trans hz)
  have hrest := head_upTo y hy
  refine not_extends_of_isOpening (List.cons_ne_nil x w) hopening ?_ ?_
  · rintro rfl hw
    exact hplus hw hrest
  · rintro rfl hw
    exact hminus hw hrest

/-- Nothing extends a symbol that starts like no other. -/
theorem not_extends_of_head {x y : Char} {w : List Char} (hx : ∀ t ∈ symbols, t.head? ≠ some x) :
    ¬ Extends (x :: w) y := by
  rintro ⟨t, ht, u, rfl⟩
  exact hx _ ht rfl

theorem segment_opening {before after : List Char → Prop} {c d : Cursor}
    (hpasses : c.Passes ['('] d) (hbefore : ∀ view, before ('(' :: view)) :
    Segment before after c ["("] d :=
  .symbol hpasses (skipLayout_of_passes hpasses (by decide)) (by decide) (by decide)
    (fun _ _ _ _ => not_extends_of_head (by decide)) fun view _ => hbefore view

theorem segment_closing {before after : List Char → Prop} {c d : Cursor}
    (hpasses : c.Passes [')'] d) (hbefore : ∀ view, before (')' :: view)) :
    Segment before after c [")"] d :=
  .symbol hpasses (skipLayout_of_passes hpasses (by decide)) (by decide) (by decide)
    (fun _ _ _ _ => not_extends_of_head (by decide)) fun view _ => hbefore view

theorem not_layout_of_isWordChar {x : Char} (hx : isWordChar x) :
    ¬ Layout.isBlank x ∧ x ≠ '/' := by
  constructor
  · intro hblank
    simp only [Layout.isBlank, Bool.or_eq_true, beq_iff_eq] at hblank
    rcases hblank with ((rfl | rfl) | rfl) | rfl <;> exact absurd hx (by decide)
  · rintro rfl
    exact absurd hx (by decide)

/-- A word or a number; a word in front of an operand is no different. -/
theorem segment_term {c d : Cursor} {w : List Char} (hpasses : c.Passes w d) (hw : IsTerm w)
    (hoff : OffWord d.rest) : Segment Opens Closes c [.ofList w] d := by
  obtain ⟨x, u, rfl, hx⟩ := hw.head
  have hlayout := not_layout_of_isWordChar hx
  refine .one (skipLayout_of_passes hpasses hlayout) hpasses (List.cons_ne_nil x u) ?_ ?_
  · intro stop _ hview
    exact hw.lexeme_eq (fun y hy => hoff y (head_upTo y hy)) hview
  · intro view _
    exact ⟨x, rfl, by simp [isOpening, hx]⟩

end QuovaKotlin.Lexical

namespace QuovaKotlin.Source

open Peg Peg.Grammar Lexical

variable {c d : Cursor} {ts : List Reading.Node}

/-- A pattern that takes a word to its end. -/
def endsWord : Pattern Rule → Bool
  | .seq _ q => endsWord q
  | .absent p | .star p => p = Grammar.identChar
  | _ => false

theorem offWord_of_identChar {m : Mode} (h : Evaluates grammar m Grammar.identChar d none) :
    OffWord d.rest := by
  obtain ⟨hchar, h⟩ := h.of_noChoice
  obtain ⟨hmark, hdollar⟩ := h.of_noChoice
  intro x hx hword
  obtain ⟨rest, hrest⟩ : ∃ rest, d.rest = x :: rest := by
    cases hrest : d.rest with
    | nil => simp [hrest] at hx
    | cons y rest =>
      obtain rfl : y = x := by simpa [hrest] using hx
      exact ⟨rest, rfl⟩
  simp only [isWordChar, Bool.or_eq_true, beq_iff_eq] at hword
  rcases hword with (hword | rfl) | rfl
  · exact hchar.of_noChar x hx hword
  · exact hmark.of_noText ⟨rest, hrest.symm⟩
  · exact hdollar.of_noText ⟨rest, hrest.symm⟩

theorem offWord_of_endsWord {m : Mode} {p : Pattern Rule} (hm : m.kind ≠ .normal)
    (hp : endsWord p) (h : Evaluates grammar m p c (some (ts, d))) : OffWord d.rest := by
  induction p generalizing c ts with
  | seq p q _ ih =>
    obtain ⟨_, _, _, _, _, h⟩ := h.of_seq
    exact ih hp h
  | absent p =>
    obtain ⟨-, rfl, h⟩ := h.of_absent
    rw [of_decide_eq_true hp] at h
    exact offWord_of_identChar h
  | star p =>
    rw [of_decide_eq_true hp] at h
    rcases h.of_star with ⟨h, -, rfl⟩ | ⟨_, _, e, -, -, h⟩
    · exact offWord_of_identChar h
    · refine h.more_induction (motive := fun _ _ d => OffWord d.rest) ?_ ?_
      · intro c h
        rw [between_of_kind hm] at h
        exact offWord_of_identChar h
      · exact fun _ _ _ _ _ _ ih => ih
  | _ => cases hp

/-- The token of an atomic rule: its text, its place and the match behind it. -/
theorem token_of_rule {r : Rule} {t : Reading.Node} (hkind : grammar.kind r = .atomic)
    (h : Evaluates grammar {} (.rule r) c (some ([t], d))) :
    ∃ w inner, t = .token r ⟨c.index, d.index⟩ (.ofList w) ∧ c.Passes w d ∧ grammar.Reads r w ∧
      Evaluates grammar { kind := .atomic } (grammar.body r) c (some (inner, d)) := by
  obtain ⟨inner, ht, h⟩ := h.of_rule grammar_kind
  have hmode : (grammar.modes {} r).2 = { kind := .atomic } := by
    unfold Grammar.modes
    rw [hkind]
  rw [hmode] at h
  obtain ⟨w, hw⟩ := h.passes _ _ rfl
  refine ⟨w, inner, ?_, hw, ⟨_, _, _, _, by simp, h, hw⟩, h⟩
  obtain rfl := (List.cons.inj ht).1
  unfold Grammar.treeOf
  rw [hkind, hw.textTo_eq]

theorem segment_termToken {r : Rule} {t : Reading.Node}
    (hr : r ∈ [Rule.integerLiteral, .longLiteral, .realLiteral, .simpleIdentifier])
    (h : Evaluates grammar {} (.rule r) c (some ([t], d))) :
    Segment Opens Closes c [t.text] d := by
  have hrules : ∀ r ∈ [Rule.integerLiteral, .longLiteral, .realLiteral, .simpleIdentifier],
      grammar.kind r = .atomic ∧ endsWord (grammar.body r) := by decide
  obtain ⟨hkind, hends⟩ := hrules r hr
  have hmade := (h.makes rfl _ _ rfl).2 t List.mem_cons_self
  obtain ⟨w, inner, rfl, hpasses, -, h⟩ := token_of_rule hkind h
  have hterm : IsTerm w := by
    simpa [ParseTree.text] using Reading.isTerm_of_rule hmade hr
  exact segment_term hpasses hterm (offWord_of_endsWord (by simp) hends h)

/-- A prefix operator of one character is not the first half of one of two. -/
theorem not_doubled_of_sign {m : Mode} {x : Char}
    (h : Evaluates grammar m (grammar.body .prefixOperator) c (some (ts, d)))
    (hpasses : c.Passes [x] d) :
    (x = '+' → '+' ∉ d.rest.head?) ∧ (x = '-' → '-' ∉ d.rest.head?) := by
  rcases h.of_choice with h | ⟨hplus, h⟩
  · cases hpasses.unique h.of_text.2
  rcases h.of_choice with h | ⟨hminus, -⟩
  · cases hpasses.unique h.of_text.2
  have hrest := hpasses.rest_eq
  constructor
  · rintro rfl hhead
    obtain ⟨rest, hd⟩ := List.head?_eq_some_iff.mp hhead
    exact hplus.of_noText ⟨rest, by rw [hrest, hd]; rfl⟩
  · rintro rfl hhead
    obtain ⟨rest, hd⟩ := List.head?_eq_some_iff.mp hhead
    exact hminus.of_noText ⟨rest, by rw [hrest, hd]; rfl⟩

/-- A plain prefix operator is one symbol, and something that an operand may start with. -/
theorem symbol_chars {operator : Ast.PrefixOperator} (h : operator.IsPlain) :
    ∃ x w, operator.sourceSymbol.toList = x :: w ∧ ¬ isWordChar x ∧ isOpening x ∧
      (¬ Layout.isBlank x ∧ x ≠ '/') ∧ lexeme (x :: w) = x :: w := by
  cases operator with
  | plus => exact ⟨'+', [], rfl, by decide, by decide, by decide, by decide⟩
  | minus => exact ⟨'-', [], rfl, by decide, by decide, by decide, by decide⟩
  | increment => exact ⟨'+', ['+'], rfl, by decide, by decide, by decide, by decide⟩
  | decrement => exact ⟨'-', ['-'], rfl, by decide, by decide, by decide, by decide⟩
  | not => exact ⟨'!', [], rfl, by decide, by decide, by decide, by decide⟩
  | complement | reference => exact h.elim

theorem segment_sign {t : Reading.Node} {operator : Ast.PrefixOperator}
    (h : Evaluates grammar {} (.rule .prefixOperator) c (some ([t], d)))
    (hoperator : Reading.meaning Ast.PrefixOperator.ofSymbol? t = .ok operator)
    (hplain : operator.IsPlain) : Segment Opens Opens c [operator.sourceSymbol] d := by
  obtain ⟨w, inner, rfl, hpasses, -, hbody⟩ := token_of_rule rfl h
  have htext : String.ofList w = operator.sourceSymbol :=
    Ast.PrefixOperator.ofSymbol?_eq_some_iff.mp (Reading.meaning_eq_ok_iff.mp hoperator)
  obtain ⟨x, u, hsymbol, hword, hopening, hlayout, hself⟩ := symbol_chars hplain
  rw [← htext, String.toList_ofList] at hsymbol
  subst hsymbol
  have hsingle : ∀ y, x :: u = [y] → c.Passes [x] d := by
    intro y hy
    obtain ⟨-, rfl⟩ := List.cons.inj hy
    exact hpasses
  rw [← htext]
  refine segment_symbol hpasses (skipLayout_of_passes hpasses hlayout) hword hself ?_ ?_ ?_
  · intro hw
    exact (not_doubled_of_sign hbody (hsingle _ hw)).1 (List.cons.inj hw).1
  · intro hw
    exact (not_doubled_of_sign hbody (hsingle _ hw)).2 (List.cons.inj hw).1
  · exact fun view _ => ⟨x, rfl, hopening⟩

/-- The token of an operator that has one spelling. -/
theorem text_of_texts {t : Reading.Node} {w : List Char} (hmade : grammar.Makes t)
    (hkind : grammar.kind t.rule = .atomic) (hlisted : (grammar.body t.rule).isListed)
    (htexts : (grammar.body t.rule).texts = [w]) : t.text = .ofList w := by
  obtain ⟨u, htext, hreads, -⟩ := hmade.reads hkind
  have hmem := hreads.spells.mem_texts hlisted
  rw [htexts] at hmem
  rw [htext, List.mem_singleton.mp hmem]

theorem text_of_readBinaryOperator {t : Reading.Node} {operator : Ast.BinaryOperator}
    (hmade : grammar.Makes t) (h : Reading.readBinaryOperator t = .ok operator) :
    t.text = operator.sourceSymbol := by
  obtain ⟨hrule, halone | htext⟩ := Reading.readBinaryOperator_eq_ok_iff.mp h
  · have hfixed : ∀ w, grammar.kind operator.rule = .atomic →
        (grammar.body operator.rule).isListed → (grammar.body operator.rule).texts = [w] →
        t.text = .ofList w := by
      rw [← hrule]
      exact fun w => text_of_texts hmade
    cases operator with
    | range => exact hfixed ['.', '.'] rfl rfl rfl
    | elvis => exact hfixed ['?', '?'] rfl rfl rfl
    | bitAnd => exact hfixed ['&'] rfl rfl rfl
    | bitXor => exact hfixed ['^'] rfl rfl rfl
    | bitOr => exact hfixed ['|'] rfl rfl rfl
    | spaceship => exact hfixed ['<', '=', '>'] rfl rfl rfl
    | conjunction => exact hfixed ['&', '&'] rfl rfl rfl
    | disjunction => exact hfixed ['|', '|'] rfl rfl rfl
    | product | sum | check | shift | comparison | equality => cases halone
  · exact htext

/-- A symbol that is one lexeme, is no part of a word and does not continue a number. -/
def isSymbolic (s : String) : Bool :=
  match s.toList with
  | [] => false
  | x :: w =>
    ! isWordChar x && lexeme (x :: w) = x :: w && lexemes s = [s] && (x ≠ '.' || w.head? = some '.')

theorem isSymbolic_sourceSymbol {operator : Ast.BinaryOperator} (hplain : operator.IsPlain)
    (hcheck : ∀ o, operator ≠ .check o) : isSymbolic operator.sourceSymbol := by
  cases operator with
  | product o => cases o <;> decide
  | sum o => cases o <;> decide
  | check o => exact absurd rfl (hcheck o)
  | shift o => cases o <;> decide
  | comparison o => cases o <;> decide
  | equality o => cases o <;> decide
  | spaceship => exact hplain.elim
  | range | elvis | bitAnd | bitXor | bitOr | conjunction | disjunction => decide

theorem closes_of_dots {x : Char} {w view : List Char} (h : x ≠ '.' ∨ w.head? = some '.') :
    Closes (x :: w ++ view) := by
  by_cases hx : x = '.'
  · subst hx
    obtain ⟨u, rfl⟩ := List.head?_eq_some_iff.mp (h.resolve_left fun hne => hne rfl)
    rfl
  · refine fraction_of_head ?_
    intro y hy
    obtain rfl : x = y := by simpa using hy
    exact hx

/-- A sum operator is not the first half of a symbol of two signs. -/
theorem not_doubled_of_sum {m : Mode} {x : Char} (hm : m.kind ≠ .normal)
    (h : Evaluates grammar m (grammar.body .sumOperator) c (some (ts, d)))
    (hpasses : c.Passes [x] d) : x ∉ d.rest.head? := by
  have hsign : ∀ (sign : String) (others : Pattern Rule) ts,
      Evaluates grammar m (.seq (.lit sign) (.absent (.choice (.lit sign) others))) c
        (some (ts, d)) → ¬ sign.toList <+: d.rest ∧ c.Passes sign.toList d := by
    intro sign others ts h
    obtain ⟨_, _, e, -, htext, h⟩ := h.of_seq
    rw [between_of_kind hm] at h
    obtain ⟨-, rfl, h⟩ := h.of_absent
    exact ⟨h.of_noChoice.1.of_noText, htext.of_text.2⟩
  intro hhead
  obtain ⟨rest, hrest⟩ := List.head?_eq_some_iff.mp hhead
  rcases h.of_choice with h | ⟨-, h⟩
  · obtain ⟨hnot, hplus⟩ := hsign "+" _ _ h
    rw [← hpasses.unique hplus] at hnot
    exact hnot ⟨rest, hrest.symm⟩
  · obtain ⟨hnot, hminus⟩ := hsign "-" _ _ h
    rw [← hpasses.unique hminus] at hnot
    exact hnot ⟨rest, hrest.symm⟩

/-- The infix operators of one sign are the sums. -/
theorem rule_of_sign {operator : Ast.BinaryOperator}
    (h : operator.sourceSymbol.toList ∈ [['+'], ['-']]) : operator.rule = .sumOperator := by
  cases operator with
  | sum => rfl
  | product o => cases o <;> exact absurd h (by decide)
  | check o => cases o <;> exact absurd h (by decide)
  | shift o => cases o <;> exact absurd h (by decide)
  | comparison o => cases o <;> exact absurd h (by decide)
  | equality o => cases o <;> exact absurd h (by decide)
  | range | elvis | bitAnd | bitXor | bitOr | spaceship | conjunction | disjunction =>
    exact absurd h (by decide)

/-- A named check: a word, and perhaps a mark in front of it that negates it. -/
theorem segment_check {o : Ast.CheckOperator}
    (hpasses : c.Passes (Ast.BinaryOperator.check o).sourceSymbol.toList d)
    (hoff : OffWord d.rest) :
    Segment Closes Opens c (lexemes (Ast.BinaryOperator.check o).sourceSymbol) d := by
  have hword : ∀ {c : Cursor} (s : String), IsTerm s.toList → c.Passes s.toList d →
      Segment Opens Opens c [s] d := by
    intro c s hs hpasses
    have hsegment := segment_term hpasses hs hoff
    rw [String.ofList_toList] at hsegment
    exact hsegment.mono (fun _ h => h) fun _ h => h.closes
  have hnegated : ∀ (s : String), IsTerm s.toList → c.Passes ('!' :: s.toList) d →
      Segment Closes Opens c ["!", s] d := by
    intro s hs hpasses
    obtain ⟨e, hmark, hpasses⟩ := passes_split (u := ['!']) hpasses
    have hskip := skipLayout_of_passes hmark (by decide)
    have hfirst : Segment Closes Opens c ["!"] e :=
      segment_symbol hmark hskip (by decide) (by decide) (fun h => absurd h (by decide))
        (fun h => absurd h (by decide)) fun _ _ => closes_of_dots (.inl (by decide))
    exact hfirst.append (hword s hs hpasses)
  have hin : IsTerm "in".toList := isTerm_word (by decide) (by decide)
  have hinstance : IsTerm "instanceof".toList := isTerm_word (by decide) (by decide)
  cases o with
  | inside => exact (hword "in" hin hpasses).mono (fun _ h => h.closes) fun _ h => h
  | notInside => exact hnegated "in" hin hpasses
  | ofType => exact (hword "instanceof" hinstance hpasses).mono (fun _ h => h.closes) fun _ h => h
  | notOfType => exact hnegated "instanceof" hinstance hpasses

theorem kind_binary (operator : Ast.BinaryOperator) :
    grammar.kind operator.rule = .atomic := by
  cases operator <;> rfl

theorem rule_of_single {r : Rule} {t : Reading.Node}
    (h : Evaluates grammar {} (.rule r) c (some ([t], d))) : t.rule = r := by
  obtain ⟨inner, ht, -⟩ := h.of_rule grammar_kind
  rw [(List.cons.inj ht).1, treeOf_rule]

theorem segment_joint {t : Reading.Node} {operator : Ast.BinaryOperator}
    (h : Evaluates grammar {} Grammar.infixPart c (some ([t], d))) (hskip : c.skipLayout = c)
    (hoperator : Reading.readBinaryOperator t = .ok operator) (hplain : operator.IsPlain) :
    Segment Closes Opens c (lexemes operator.sourceSymbol) d := by
  have hmade := (h.makes rfl _ _ rfl).2 t List.mem_cons_self
  have htext := text_of_readBinaryOperator hmade hoperator
  obtain ⟨r, -, h⟩ := h.of_rules (by decide)
  obtain rfl : r = operator.rule := by
    rw [← rule_of_single h, Reading.readBinaryOperator_rule hoperator]
  obtain ⟨w, inner, rfl, hpasses, -, hbody⟩ := token_of_rule (kind_binary operator) h
  have hw : w = operator.sourceSymbol.toList := by
    rw [← htext]
    exact String.toList_ofList.symm
  subst hw
  by_cases hcheck : ∃ o, operator = .check o
  · obtain ⟨o, rfl⟩ := hcheck
    have hends : endsWord (grammar.body .namedCheckOperator) := by decide
    exact segment_check hpasses (offWord_of_endsWord (by simp) hends hbody)
  · have hsymbolic := isSymbolic_sourceSymbol hplain (not_exists.mp hcheck)
    unfold isSymbolic at hsymbolic
    split at hsymbolic
    · cases hsymbolic
    · next x u hchars =>
      simp only [Bool.and_eq_true, Bool.not_eq_true', decide_eq_true_eq, Bool.or_eq_true]
        at hsymbolic
      obtain ⟨⟨⟨hword, hself⟩, hlexemes⟩, hdots⟩ := hsymbolic
      rw [hchars] at hpasses
      have hdoubled : ∀ sign ∈ ['+', '-'], x :: u = [sign] → sign ∉ d.rest.head? := by
        intro sign hsign heq
        obtain ⟨rfl, rfl⟩ := List.cons.inj heq
        have hrule := rule_of_sign (by rw [hchars]; simpa using hsign)
        rw [hrule] at hbody
        exact not_doubled_of_sum (by simp) hbody hpasses
      have hsymbol : operator.sourceSymbol = .ofList (x :: u) := by
        rw [← hchars, String.ofList_toList]
      rw [hlexemes, hsymbol]
      exact segment_symbol hpasses hskip (by simp [hword]) hself (hdoubled '+' (by decide))
        (hdoubled '-' (by decide)) fun _ _ => closes_of_dots hdots

end QuovaKotlin.Source

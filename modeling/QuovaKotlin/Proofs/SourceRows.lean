import QuovaKotlin.Proofs.SourceTokens
import QuovaKotlin.Source.Parse

/-!
# The source of a plain expression, lexeme by lexeme

What the grammar matched between the first and the last character of a plain expression, layout
aside, is the row of the source spellings of its marks.
-/

set_option autoImplicit false

namespace QuovaKotlin.Reading

open Ast Peg Peg.Grammar Lexical
open Precedence (Grouping)
open Source (Rule grammar)

/-- The lexemes `us` of an item of an operator expression, by its role. -/
def Shape (parts : Readers) (node : Node) (us : List String) : Precedence.Role → Prop
  | .operand => ∃ e, PlainOperand parts node e ∧ us = e.source
  | .before _ => ∃ operator, node.rule = .prefixOperator ∧
      meaning PrefixOperator.ofSymbol? node = .ok operator ∧ operator.IsPlain ∧
      us = [operator.sourceSymbol]
  | .behind _ => False
  | .leftToRight _ | .rightToLeft _ => ∃ operator, readBinaryOperator node = .ok operator ∧
      operator.IsPlain ∧ us = lexemes operator.sourceSymbol

/-- The lexemes of an item of an operator expression. -/
def Item (parts : Readers) (node : Node) (us : List String) : Prop :=
  Shape parts node us (nodeRole node)

/-- The lexemes of several items. -/
inductive Row (parts : Readers) : List Node → List String → Prop
  | nil : Row parts [] []
  | cons {node : Node} {nodes : List Node} {us vs : List String} :
      Item parts node us → Row parts nodes vs → Row parts (node :: nodes) (us ++ vs)

variable {parts : Readers} {node : Node} {nodes nodes' : List Node} {us vs : List String}

theorem Row.append (h : Row parts nodes us) (h' : Row parts nodes' vs) :
    Row parts (nodes ++ nodes') (us ++ vs) := by
  induction h with
  | nil => exact h'
  | cons hitem _ ih =>
    rw [List.append_assoc]
    exact .cons hitem ih

theorem Row.split (h : Row parts (nodes ++ nodes') us) :
    ∃ vs ws, us = vs ++ ws ∧ Row parts nodes vs ∧ Row parts nodes' ws := by
  induction nodes generalizing us with
  | nil => exact ⟨[], us, rfl, .nil, h⟩
  | cons node nodes ih =>
    cases h with
    | @cons _ _ xs ys hitem h =>
      obtain ⟨vs, ws, rfl, hnodes, hrest⟩ := ih h
      exact ⟨xs ++ vs, ws, by rw [List.append_assoc], .cons hitem hnodes, hrest⟩

theorem Row.single (h : Row parts [node] us) : Item parts node us := by
  cases h with
  | cons hitem h =>
    cases h
    rw [List.append_nil]
    exact hitem

theorem Item.row (h : Item parts node us) : Row parts [node] us := by
  rw [← List.append_nil us]
  exact .cons h .nil

theorem Item.of_rule {r : Rule} (h : Item parts node us) (hrule : node.rule = r) :
    Shape parts node us (roleOf r) := by
  rw [← hrule]
  exact h

theorem item_operand {e : Expression} (h : PlainOperand parts node e) :
    Item parts node e.source := by
  have hrole : nodeRole node = .operand := by
    unfold nodeRole
    cases h with
    | literal hrule | parenthesized hrule | identifier hrule =>
      rw [hrule]
      rfl
  unfold Item
  rw [hrole]
  exact ⟨e, h, rfl⟩

theorem item_sign {operator : PrefixOperator} (hrule : node.rule = .prefixOperator)
    (h : meaning PrefixOperator.ofSymbol? node = .ok operator) (hplain : operator.IsPlain) :
    Item parts node [operator.sourceSymbol] := by
  unfold Item nodeRole
  rw [hrule]
  exact ⟨operator, hrule, h, hplain, rfl⟩

theorem item_joint {operator : BinaryOperator} (h : readBinaryOperator node = .ok operator)
    (hplain : operator.IsPlain) : Item parts node (lexemes operator.sourceSymbol) := by
  obtain ⟨power, hrole, -⟩ := nodeRole_binary h
  unfold Item
  rw [hrole]
  exact ⟨operator, h, hplain, rfl⟩

/-- A plain expression is spelled item by item. -/
theorem ReadsPlain.row {g : Grouping Node} {e : Expression} (h : ReadsPlain parts g e)
    (hfits : g.Fits nodeRole) : Row parts g.items e.source := by
  induction h with
  | leaf h => exact (item_operand h).row
  | @before node g operator operand hspread hoperator hplain _ ih =>
    obtain ⟨hbefore, hfits⟩ := hfits
    have hrule := ((isBefore_iff node.rule).mp hbefore).resolve_left hspread
    rw [Expression.source_prefixed]
    exact .cons (item_sign hrule hoperator hplain) (ih hfits)
  | between hoperator hplain _ _ ihl ihr =>
    obtain ⟨-, hfl, hfr⟩ := hfits
    rw [Expression.source_binary]
    exact (ihl hfl).append (.cons (item_joint hoperator hplain) (ihr hfr))

variable {c d : Cursor}

/-- The rounds of a repetition side by side. Every round but the first starts behind layout. -/
theorem segment_star {p : Pattern Rule} {view : List Char → Prop} (starts : Cursor → Prop)
    (hlayout : ∀ x rest, Layout.isBlank x ∨ x = '/' → view (x :: rest))
    (hstarts : ∀ c : Cursor, starts c.skipLayout)
    (hround : ∀ {c d nodes us}, starts c → Evaluates grammar {} p c (some (nodes, d)) →
      Row parts nodes us → Segment view view c us d)
    (hc : starts c) (h : Evaluates grammar {} (.star p) c (some (nodes, d)))
    (hrow : Row parts nodes us) : Segment view view c us d := by
  rcases h.of_star with ⟨-, rfl, rfl⟩ | ⟨first, others, e, rfl, hfirst, h⟩
  · cases hrow
    exact .refl _
  · obtain ⟨vs, ws, rfl, hrow, hothers⟩ := hrow.split
    refine (hround hc hfirst hrow).append ?_
    refine h.more_induction
      (motive := fun c nodes d => ∀ us, Row parts nodes us → Segment view view c us d) ?_ ?_ ws
      hothers
    · intro c _ us hrow
      cases hrow
      exact .refl c
    · intro c first e others d hfirst ih us hrow
      obtain ⟨vs, ws, rfl, hrow, hothers⟩ := hrow.split
      have hlead : Segment view view c [] c.skipLayout := .layout hlayout c
      exact hlead.append ((hround (hstarts c) hfirst hrow).append (ih ws hothers))

theorem segment_prefixPart (h : Evaluates grammar {} Source.Grammar.prefixPart c (some (nodes, d)))
    (hrow : Row parts nodes us) : Segment Opens Opens c us d := by
  obtain ⟨r, hr, h⟩ := h.of_rules (by decide)
  obtain ⟨inner, rfl, -⟩ := h.of_rule Source.grammar_kind
  have hrule := Source.rule_of_single h
  have hbefore : (roleOf r).isBefore := by
    change r ∈ [.prefixOperator, .spreadOperator] at hr
    simp only [List.mem_cons, List.not_mem_nil, or_false] at hr
    rcases hr with rfl | rfl <;> rfl
  have hshape := hrow.single.of_rule hrule
  cases hrole : roleOf r with
  | before power =>
    rw [hrole] at hshape
    obtain ⟨operator, hprefix, hoperator, hplain, rfl⟩ := hshape
    obtain rfl : r = .prefixOperator := hrule.symm.trans hprefix
    exact Source.segment_sign h hoperator hplain
  | operand | behind | leftToRight | rightToLeft =>
    rw [hrole] at hbefore
    cases hbefore

/-- No postfix operator stands in a plain expression. -/
theorem postfixPart_idle
    (h : Evaluates grammar {} (.star Source.Grammar.postfixPart) c (some (nodes, d)))
    (hrow : Row parts nodes us) : us = [] ∧ d = c := by
  rcases h.of_star with ⟨-, rfl, rfl⟩ | ⟨first, others, e, rfl, h, -⟩
  · cases hrow
    exact ⟨rfl, rfl⟩
  · obtain ⟨vs, ws, rfl, hrow, -⟩ := hrow.split
    obtain ⟨r, hr, h⟩ := h.of_rules (by decide)
    obtain ⟨inner, rfl, -⟩ := h.of_rule Source.grammar_kind
    have hshape := hrow.single.of_rule (Source.rule_of_single h)
    change r ∈ [.postfixOperator, .castOperator] at hr
    simp only [List.mem_cons, List.not_mem_nil, or_false] at hr
    rcases hr with rfl | rfl <;> exact hshape.elim

/-- The readers of the parts read what is scanned. -/
def Readers.KeepLexemes (parts : Readers) : Prop :=
  ∀ {c d : Cursor} {node : Node} {e : Expression},
    Evaluates grammar {} (.rule .expression) c (some ([node], d)) →
    parts.expression node = .ok e → e.Plain → Segment Opens Closes c e.source d

/-- A literal starts and ends where its token does. -/
theorem literal_of_rule {child : Node}
    (h : Evaluates grammar {} (.rule .literal) c (some ([node], d)))
    (hchild : child ∈ node.children) :
    Evaluates grammar {} (.rule child.rule) c (some ([child], d)) := by
  obtain ⟨inner, hnode, hbody⟩ := h.of_rule Source.grammar_kind
  obtain ⟨r, -, hbody⟩ := hbody.of_rules (by decide)
  obtain ⟨_, rfl, -⟩ := hbody.of_rule Source.grammar_kind
  rw [(List.cons.inj hnode).1] at hchild
  obtain ⟨-, hmem⟩ := treeOf_children Source.grammar_kind hchild
  obtain rfl := List.mem_singleton.mp hmem
  rw [treeOf_rule]
  exact hbody

theorem PlainOperand.rule_mem {e : Expression} (h : PlainOperand parts node e) :
    node.rule ∈ [Rule.literal, .expression, .simpleIdentifier] := by
  cases h with
  | literal hrule | parenthesized hrule | identifier hrule => simp [hrule]

theorem plainOperand_of_rule {r : Rule} (hrole : roleOf r = .operand)
    (h : Evaluates grammar {} (.rule r) c (some (nodes, d))) (hrow : Row parts nodes us) :
    ∃ node e, nodes = [node] ∧ node.rule = r ∧ PlainOperand parts node e ∧ us = e.source := by
  obtain ⟨inner, rfl, -⟩ := h.of_rule Source.grammar_kind
  have hrule := Source.rule_of_single h
  have hshape := hrow.single.of_rule hrule
  rw [hrole] at hshape
  obtain ⟨e, hoperand, rfl⟩ := hshape
  exact ⟨_, e, rfl, hrule, hoperand, rfl⟩

theorem segment_parenthesized (hparts : parts.KeepLexemes)
    (h : Evaluates grammar {} (.all [.lit "(", .rule .expression, .lit ")"]) c (some (nodes, d)))
    (hrow : Row parts nodes us) : Segment Opens Closes c us d := by
  obtain ⟨_, _, c₁, rfl, hopen, h⟩ := h.of_seq
  obtain ⟨_, _, c₂, rfl, hinner, hclose⟩ := h.of_seq
  obtain ⟨rfl, hopens⟩ := hopen.of_text
  obtain ⟨rfl, hcloses⟩ := hclose.of_text
  rw [List.nil_append, List.append_nil] at hrow
  obtain ⟨node, e, rfl, hrule, hoperand, rfl⟩ := plainOperand_of_rule rfl hinner hrow
  cases hoperand with
  | literal hliteral => cases hrule.symm.trans hliteral
  | identifier hname => cases hrule.symm.trans hname
  | @parenthesized e _ hread hplain =>
    rw [between_default] at hinner hcloses
    have hlead : Segment Opens Opens c₁ [] c₁.skipLayout := .layout opens_of_layout c₁
    have hmiddle : Segment Opens Closes c₁.skipLayout e.source c₂ := hparts hinner hread hplain
    have htrail : Segment Closes Closes c₂ [] c₂.skipLayout := .layout closes_of_layout c₂
    rw [Expression.source_parenthesized]
    have hfirst : Segment Opens Opens c ["("] c₁ :=
      segment_opening hopens fun _ => ⟨'(', rfl, by decide⟩
    exact hfirst.append
      (hlead.append (hmiddle.append (htrail.append (segment_closing hcloses fun _ => rfl))))

theorem segment_operand (hparts : parts.KeepLexemes)
    (h : Evaluates grammar {} Source.Grammar.primaryExpression c (some (nodes, d)))
    (hrow : Row parts nodes us) : Segment Opens Closes c us d := by
  -- The rules of the other operands make nothing plain.
  have hother : ∀ r, roleOf r = .operand → r ∉ [Rule.literal, .expression, .simpleIdentifier] →
      ¬ Evaluates grammar {} (.rule r) c (some (nodes, d)) := by
    intro r hrole hr h
    obtain ⟨node, e, -, rfl, hoperand, -⟩ := plainOperand_of_rule hrole h hrow
    exact hr hoperand.rule_mem
  rcases h.of_choice with h | ⟨-, h⟩
  · obtain ⟨node, e, rfl, hrule, hoperand, rfl⟩ := plainOperand_of_rule rfl h hrow
    cases hoperand with
    | @literal child value _ hchild hnumber htext =>
      have hsegment := Source.segment_termToken (List.mem_append_left [.simpleIdentifier] hnumber)
        (literal_of_rule h hchild)
      rw [← htext] at hsegment
      exact hsegment
    | parenthesized hexpression => cases hrule.symm.trans hexpression
    | identifier hname => cases hrule.symm.trans hname
  rcases h.of_choice with h | ⟨-, h⟩
  · exact absurd h (hother _ rfl (by decide))
  rcases h.of_choice with h | ⟨-, h⟩
  · exact absurd h (hother _ rfl (by decide))
  rcases h.of_choice with h | ⟨-, h⟩
  · exact absurd h (hother _ rfl (by decide))
  rcases h.of_choice with h | ⟨-, h⟩
  · exact segment_parenthesized hparts h hrow
  · obtain ⟨node, e, rfl, hrule, hoperand, rfl⟩ := plainOperand_of_rule rfl h hrow
    cases hoperand with
    | literal hliteral => cases hrule.symm.trans hliteral
    | parenthesized hexpression => cases hrule.symm.trans hexpression
    | identifier => exact Source.segment_termToken (by decide) h

/-- An operand with the prefix operators in front of it. -/
theorem segment_affixed (hparts : parts.KeepLexemes) {front operand back : List Node}
    {c₁ c₂ : Cursor}
    (hfront : Evaluates grammar {} (.star Source.Grammar.prefixPart) c (some (front, c₁)))
    (hoperand : Evaluates grammar {} Source.Grammar.primaryExpression c₁.skipLayout
      (some (operand, c₂)))
    (hback : Evaluates grammar {} (.star Source.Grammar.postfixPart) c₂.skipLayout
      (some (back, d)))
    (hrow : Row parts (front ++ (operand ++ back)) us) : Segment Opens Closes c us d := by
  obtain ⟨us, ws, rfl, hfrontRow, hrow⟩ := hrow.split
  obtain ⟨vs, ws, rfl, hoperandRow, hbackRow⟩ := hrow.split
  obtain ⟨rfl, rfl⟩ := postfixPart_idle hback hbackRow
  have hsigns : Segment Opens Opens c us c₁ :=
    segment_star (fun _ => True) opens_of_layout (fun _ => trivial)
      (fun _ => segment_prefixPart) trivial hfront hfrontRow
  have hlead : Segment Opens Opens c₁ [] c₁.skipLayout := .layout opens_of_layout c₁
  have htrail : Segment Closes Closes c₂ [] c₂.skipLayout := .layout closes_of_layout c₂
  exact hsigns.append (hlead.append ((segment_operand hparts hoperand hoperandRow).append htrail))

theorem segment_infixPart (hskip : c.skipLayout = c)
    (h : Evaluates grammar {} Source.Grammar.infixPart c (some (nodes, d)))
    (hrow : Row parts nodes us) : Segment Closes Opens c us d := by
  have hroles : ∀ r ∈ Source.Grammar.infixPart.rules, (roleOf r).isBetween := by decide
  obtain ⟨r, hr, hrule⟩ := h.of_rules (by decide)
  obtain ⟨inner, rfl, -⟩ := hrule.of_rule Source.grammar_kind
  have hbetween := hroles r hr
  have hshape := hrow.single.of_rule (Source.rule_of_single hrule)
  cases hrole : roleOf r with
  | leftToRight | rightToLeft =>
    rw [hrole] at hshape
    obtain ⟨operator, hoperator, hplain, rfl⟩ := hshape
    exact Source.segment_joint h hskip hoperator hplain
  | operand | before | behind =>
    rw [hrole] at hbetween
    cases hbetween

/-- An infix operator with the operand behind it. -/
theorem segment_joined (hparts : parts.KeepLexemes) (hskip : c.skipLayout = c)
    (h : Evaluates grammar {} (.all [Source.Grammar.infixPart, .star Source.Grammar.prefixPart,
      Source.Grammar.primaryExpression, .star Source.Grammar.postfixPart]) c (some (nodes, d)))
    (hrow : Row parts nodes us) : Segment Closes Closes c us d := by
  obtain ⟨_, _, c₁, rfl, hjoint, h⟩ := h.of_seq
  obtain ⟨_, _, c₂, rfl, hfront, h⟩ := h.of_seq
  obtain ⟨_, _, c₃, rfl, hoperand, hback⟩ := h.of_seq
  obtain ⟨us, vs, rfl, hjointRow, hrow⟩ := hrow.split
  have hjoint : Segment Closes Opens c us c₁ := segment_infixPart hskip hjoint hjointRow
  have hlead : Segment Opens Opens c₁ [] c₁.skipLayout := .layout opens_of_layout c₁
  exact hjoint.append (hlead.append (segment_affixed hparts hfront hoperand hback hrow))

theorem segment_operatorExpression (hparts : parts.KeepLexemes)
    (h : Evaluates grammar {} (grammar.body .operatorExpression) c (some (nodes, d)))
    (hrow : Row parts nodes us) : Segment Opens Closes c us d := by
  obtain ⟨front, _, c₁, rfl, hfront, h⟩ := h.of_seq
  obtain ⟨operand, _, c₂, rfl, hoperand, h⟩ := h.of_seq
  obtain ⟨back, others, c₃, rfl, hback, hothers⟩ := h.of_seq
  rw [← List.append_assoc, ← List.append_assoc, List.append_assoc front] at hrow
  obtain ⟨us, vs, rfl, hrow, hothersRow⟩ := hrow.split
  have hfirst := segment_affixed hparts hfront hoperand hback hrow
  have htrail : Segment Closes Closes c₃ [] c₃.skipLayout := .layout closes_of_layout c₃
  have hrest : Segment Closes Closes c₃.skipLayout vs d :=
    segment_star (fun c => c.skipLayout = c) closes_of_layout Cursor.skipLayout_skipLayout
      (segment_joined hparts) c₃.skipLayout_skipLayout hothers hothersRow
  exact hfirst.append (htrail.append hrest)

/-- The operator expression of an expression without a comprehension. -/
theorem operatorExpression_of_rule
    (h : Evaluates grammar {} (.rule .expression) c (some ([node], d)))
    (hsuffix : node.child? .forSuffix = none) :
    ∃ child c₁ inner, node.child? .operatorExpression = some child ∧ child.children = inner ∧
      Evaluates grammar {} (grammar.body .operatorExpression) c (some (inner, c₁)) ∧
      d = c₁.skipLayout := by
  obtain ⟨inner, hnode, h⟩ := h.of_rule Source.grammar_kind
  obtain ⟨us, vs, c₁, rfl, hfirst, hsecond⟩ := h.of_seq
  obtain ⟨items, rfl, hbody⟩ := hfirst.of_rule Source.grammar_kind
  obtain rfl := (List.cons.inj hnode).1
  rcases hsecond.of_optional with hsecond | ⟨-, rfl, rfl⟩
  · obtain ⟨_, rfl, -⟩ := hsecond.of_rule Source.grammar_kind
    cases hsuffix
  · exact ⟨_, c₁, items, rfl, rfl, hbody, rfl⟩

theorem keepLexemes_ofHeight (height : Nat) : (Readers.ofHeight height).KeepLexemes := by
  induction height with
  | zero =>
    intro c d node e _ h
    cases h
  | succ height ih =>
    intro c d node e heval h hplain
    obtain ⟨child, hchild, hsuffix, h⟩ := readExpression_plain h hplain
    obtain ⟨g, hitems, hfits, -, hread⟩ := readOperatorExpression_plain h hplain
    obtain ⟨_, c₁, inner, hchild', rfl, hbody, rfl⟩ := operatorExpression_of_rule heval hsuffix
    obtain rfl := Option.some.inj (hchild.symm.trans hchild')
    have hrow := hread.row hfits
    rw [hitems] at hrow
    have hsegment := segment_operatorExpression ih hbody hrow
    have htrail : Segment Closes Closes c₁ [] c₁.skipLayout := .layout closes_of_layout c₁
    rw [← List.append_nil e.source]
    exact hsegment.append htrail

end QuovaKotlin.Reading

namespace QuovaKotlin.Source

open Peg Lexical Reading

/-- An expression of a source file: what the readers make of a node of its parse tree. -/
structure Holds (text : String) (node : Node) (e : Ast.Expression) : Prop where
  within : ∃ tree, parseTree text = .ok tree ∧ ParseTree.Within node tree
  rule_eq : node.rule = .expression
  read : ∃ height, (Readers.ofHeight height).expression node = .ok e

namespace Holds

variable {text : String} {node : Node} {e : Ast.Expression}

/-- The place of an expression in the text. -/
theorem placed (h : Holds text node e) :
    ∃ c d u, Cursor.Passes ⟨0, text.toList⟩ u c ∧
      Grammar.Evaluates grammar {} (.rule .expression) c (some ([node], d)) := by
  obtain ⟨tree, htree, hwithin⟩ := h.within
  have hparse : grammar.parse .quovaFile text = .ok tree := by
    unfold parseTree at htree
    cases hresult : grammar.parse .quovaFile text with
    | ok tree' =>
      rw [hresult] at htree
      cases htree
      rfl
    | error =>
      rw [hresult] at htree
      cases htree
  obtain ⟨d, ts, heval⟩ := Peg.Grammar.parse_evaluates hparse
  obtain ⟨c', d', u, hu, heval'⟩ :=
    heval.placed grammar_kind rfl _ _ rfl tree List.mem_cons_self node hwithin
  rw [h.rule_eq] at heval'
  exact ⟨c', d', u, hu, heval'⟩

theorem sound (h : Holds text node e) (hplain : e.Plain) : e.Sound := by
  obtain ⟨c, d, u, -, heval⟩ := h.placed
  obtain ⟨height, hread⟩ := h.read
  exact keepSound_ofHeight height node e ((heval.makes rfl _ _ rfl).2 node List.mem_cons_self)
    hread hplain

/-- The source of a plain expression is the row of the source spellings of its marks. -/
theorem lexemesBetween_eq (h : Holds text node e) (hplain : e.Plain) :
    lexemesBetween text node.span.start node.span.stop = e.source := by
  obtain ⟨c, d, u, hu, heval⟩ := h.placed
  obtain ⟨height, hread⟩ := h.read
  have hsegment := keepLexemes_ofHeight height heval hread hplain
  have hspan : node.span = ⟨c.index, d.index⟩ := by
    obtain ⟨inner, hnode, -⟩ := heval.of_rule grammar_kind
    rw [(List.cons.inj hnode).1]
    rfl
  have hstart : (⟨c.index, text.toList.drop c.index⟩ : Cursor) = c := by
    have hindex := hu.index_eq
    have hrest := hu.rest_eq
    simp only [Nat.zero_add] at hindex
    change text.toList = u ++ c.rest at hrest
    rw [hrest, hindex, List.drop_left, ← hindex]
  have hend : Closes (upTo d.index d) := by
    rw [upTo_of_le (Nat.le_refl _)]
    rfl
  have hscans := hsegment.scans (Nat.le_refl _) hend
  rw [← hstart] at hscans
  rw [hspan]
  refine hscans.lexemesBetween_eq ?_
  obtain ⟨v, hv⟩ := d.skipLayout_passes
  have hindex := hv.index_eq
  omega

end Holds

/-- The parse tree of `var v = e;`, where the expression ends in front of `stop`. -/
def propertyTree (node : Node) (stop : Nat) : Node :=
  .node .quovaFile ⟨0, stop + 1⟩ [
    .node .declaration ⟨0, stop + 1⟩ [
      .node .propertyDeclaration ⟨0, stop + 1⟩ [
        .node .typeOrVar ⟨0, 3⟩ [.token .kwVar ⟨0, 3⟩ "var"],
        .node .property ⟨4, stop⟩ [
          .token .simpleIdentifier ⟨4, 5⟩ "v", .node .propertyValue ⟨6, stop⟩ [node]]]],
    .node .endOfInput ⟨stop + 1, stop + 1⟩ []]

theorem holds_of_propertyTree {text : String} {node : Node} {stop height : Nat}
    {e : Ast.Expression}
    (hparse : (grammar.parse .quovaFile text).toOption = some (propertyTree node stop))
    (hrule : node.rule = .expression) (hread : (Readers.ofHeight height).expression node = .ok e) :
    Holds text node e := by
  refine ⟨⟨propertyTree node stop, ?_, ?_⟩, hrule, height, hread⟩
  · rw [parseTree, Reading.ok_of_toOption hparse]
    rfl
  · have hvalue : ParseTree.Within node (.node .propertyValue ⟨6, stop⟩ [node]) :=
      .child List.mem_cons_self (.self node)
    have hsecond : ∀ {x y : Node}, y ∈ [x, y] := List.mem_cons_of_mem _ List.mem_cons_self
    exact .child List.mem_cons_self (.child List.mem_cons_self (.child hsecond
      (.child hsecond hvalue)))

end QuovaKotlin.Source

import QuovaKotlin.Proofs.Lookahead
import QuovaKotlin.Proofs.Reading.FileAlike

/-!
# The two readings of an assignment

An assignment is a statement of its own and also an operator expression. As a statement its target
and its value are matched and read apart; as an expression all its parts stand in one flat sequence
that the operator levels divide. Both ways lead to the same target, operator and value: nothing
binds looser than an assignment operator, and what stands in front of it is closed.
-/

set_option autoImplicit false

namespace QuovaKotlin.Precedence

variable {τ : Type} {role : τ → Role}

/-- Postfix operators behind an operand. -/
def Grouping.suffixed (operand : Grouping τ) (operators : List τ) : Grouping τ :=
  operators.foldl .behind operand

/-- An operand to which no operator on its right edge can be torn open. -/
structure Grouping.Closed (role : τ → Role) (g : Grouping τ) : Prop where
  fits : g.Fits role
  ordered : g.Ordered role
  rightSpine_eq : g.rightSpine = []

namespace Grouping

theorem Closed.yields {g : Grouping τ} (h : g.Closed role) (power : Nat) :
    g.Yields role power := by
  intro operator hmem
  rw [h.rightSpine_eq] at hmem
  cases hmem

theorem Closed.behind {g : Grouping τ} (h : g.Closed role) {operator : τ}
    (hbehind : (role operator).isBehind) : (Grouping.behind g operator).Closed role where
  fits := ⟨hbehind, h.fits⟩
  ordered := ⟨h.yields _, h.ordered⟩
  rightSpine_eq := rfl

theorem Closed.suffixed {g : Grouping τ} (h : g.Closed role) {operators : List τ}
    (hbehind : ∀ x ∈ operators, (role x).isBehind) : (g.suffixed operators).Closed role := by
  induction operators generalizing g with
  | nil => exact h
  | cons operator operators ih =>
    exact ih (h.behind (hbehind operator List.mem_cons_self)) fun x hx =>
      hbehind x (List.mem_cons_of_mem operator hx)

theorem items_suffixed (g : Grouping τ) (operators : List τ) :
    (g.suffixed operators).items = g.items ++ operators := by
  induction operators generalizing g with
  | nil => exact (List.append_nil _).symm
  | cons operator operators ih =>
    calc (suffixed (.behind g operator) operators).items
        = (g.items ++ [operator]) ++ operators := ih (.behind g operator)
      _ = g.items ++ operator :: operators := by rw [List.append_assoc, List.singleton_append]

theorem Fits.leftSpine {g : Grouping τ} (h : g.Fits role) :
    ∀ x ∈ g.leftSpine, (role x).isBehind ∨ (role x).isBetween := by
  induction g with
  | leaf | before => exact fun _ hx => nomatch hx
  | behind operand operator ih =>
    intro x hx
    rcases List.mem_cons.mp hx with rfl | hx
    · exact .inl h.1
    · exact ih h.2 x hx
  | between left operator right ih =>
    intro x hx
    rcases List.mem_cons.mp hx with rfl | hx
    · exact .inr h.1
    · exact ih h.2.1 x hx

end Grouping

/-- An infix operator that leaves every other one to its right operand divides a sequence behind a
closed operand. -/
theorem group_loosest {front g : Grouping τ} {operator : τ} {items : List τ}
    (hfront : front.Closed role) (hbetween : (role operator).isBetween)
    (hloosest : ∀ x, (role x).isBehind ∨ (role x).isBetween →
      (role operator).binding < (role x).power)
    (h : group role items = some g) :
    group role (front.items ++ operator :: items) = some (.between front operator g) := by
  obtain ⟨rfl, hfits, hordered⟩ := group_sound h
  have hclings : g.Clings role (role operator).binding :=
    fun x hx => hloosest x (hfits.leftSpine x hx)
  exact group_items (.between front operator g) ⟨hbetween, hfront.fits, hfits⟩
    ⟨hfront.yields _, hclings, hfront.ordered, hordered⟩

end QuovaKotlin.Precedence

namespace QuovaKotlin.Reading

open Ast Peg Peg.Grammar
open Precedence (Grouping IsRun)
open Source (Rule grammar)

/-- `primary postfix* op R`: the parts of an assignment, with any operator sequence as the value. -/
structure AssignmentSequence where
  primary : Node
  suffixes : List Node
  operator : Node
  value : List Node
  primary_role : nodeRole primary = .operand
  suffixes_rule : ∀ suffix ∈ suffixes, suffix.rule = .postfixOperator
  operator_rule : operator.rule = .assignmentOperator
  value_run : IsRun nodeRole value

namespace AssignmentSequence

/-- All parts side by side. -/
def items (s : AssignmentSequence) : List Node :=
  s.primary :: s.suffixes ++ s.operator :: s.value

/-- The tree is that of the sequence as an expression. -/
def IsExpression (s : AssignmentSequence) (node : Node) : Prop :=
  ∃ span inner, node = .node .expression span [.node .operatorExpression inner s.items]

/-- The tree is that of the sequence as a statement: the target and the value are trees apart, and
no comprehension suffix stands behind the value. -/
def IsStatement (s : AssignmentSequence) (node : Node) : Prop :=
  ∃ span target value inner,
    node = .node .assignment span [
      .node .assignableExpression target (s.primary :: s.suffixes), s.operator,
      .node .expression value [.node .operatorExpression inner s.value]]

end AssignmentSequence

theorem assignment_loosest (x : Node)
    (h : (nodeRole x).isBehind ∨ (nodeRole x).isBetween) :
    (roleOf .assignmentOperator).binding < (nodeRole x).power := by
  have hrules : ∀ rule, (roleOf rule).isBehind ∨ (roleOf rule).isBetween →
      (roleOf .assignmentOperator).binding < (roleOf rule).power := by
    intro rule
    cases rule <;> decide
  exact hrules x.rule h

theorem readGrouping_suffixed (parts : Readers) (g : Grouping Node) {suffixes : List Node}
    (hsuffixes : ∀ suffix ∈ suffixes, suffix.rule = .postfixOperator) :
    readGrouping parts (g.suffixed suffixes) =
      readGrouping parts g >>= fun operand => readSuffixes parts operand suffixes := by
  induction suffixes generalizing g with
  | nil => cases hread : readGrouping parts g <;> simp [Grouping.suffixed, hread] <;> rfl
  | cons suffix suffixes ih =>
    have hrule := hsuffixes suffix List.mem_cons_self
    have hrest := ih (.behind g suffix) fun x hx => hsuffixes x (List.mem_cons_of_mem suffix hx)
    refine hrest.trans ?_
    rw [readGrouping]
    cases readGrouping parts g with
    | error => rfl
    | ok operand =>
      rw [ok_bind, ok_bind, readSuffixes, readSuffixed, hrule]
      cases readPostfixOperator parts suffix <;> rfl

theorem readOperatorExpression_of_group (parts : Readers) (span : Span) {items : List Node}
    {g : Grouping Node} (h : Precedence.group nodeRole items = some g) :
    readOperatorExpression parts (.node .operatorExpression span items) = readGrouping parts g := by
  have hgroup : Precedence.group (fun item : Node => roleOf item.rule)
      (ParseTree.node Rule.operatorExpression span items).children = some g := h
  rw [readOperatorExpression, hgroup]

/-- The fold of a flat sequence reads the target as an assignable expression, and the value as the
fold of what stands behind the operator. -/
theorem readOperatorExpression_items (s : AssignmentSequence) (parts : Readers)
    (whole target value : Span) :
    readOperatorExpression parts (.node .operatorExpression whole s.items) = do
      let left ← readAssignable parts (.node .assignableExpression target (s.primary :: s.suffixes))
      let right ← readOperatorExpression parts (.node .operatorExpression value s.value)
      let operator ← meaning AssignmentOperator.ofSymbol? s.operator
      return .assign left operator right := by
  obtain ⟨g, hg⟩ := s.value_run.grouped []
  have hgroup : Precedence.group nodeRole s.value = some g := hg
  have hleaf : (Grouping.leaf s.primary).Closed nodeRole := ⟨s.primary_role, trivial, rfl⟩
  have hfront : (Grouping.suffixed (.leaf s.primary) s.suffixes).Closed nodeRole :=
    hleaf.suffixed fun x hx => by
      rw [nodeRole, s.suffixes_rule x hx]
      decide
  have hrole : nodeRole s.operator = roleOf .assignmentOperator := by
    rw [nodeRole, s.operator_rule]
  have hgroups := Precedence.group_loosest hfront (by rw [hrole]; decide)
    (by rw [hrole]; exact assignment_loosest) hgroup
  rw [Grouping.items_suffixed] at hgroups
  have hwhole : Precedence.group nodeRole s.items =
      some (.between (.suffixed (.leaf s.primary) s.suffixes) s.operator g) := hgroups
  rw [readOperatorExpression_of_group parts whole hwhole,
    readOperatorExpression_of_group parts value hgroup, readGrouping,
    readGrouping_suffixed parts _ s.suffixes_rule]
  unfold readInfix
  rw [s.operator_rule]
  rfl

/-- An expression without a comprehension suffix is read as its operator expression. -/
theorem readExpression_bare (parts : Readers) (span inner : Span) (items : List Node) :
    readExpression parts (.node .expression span [.node .operatorExpression inner items]) =
      readOperatorExpression parts (.node .operatorExpression inner items) := by
  show readOperatorExpression parts (.node .operatorExpression inner items) >>= pure = _
  cases readOperatorExpression parts (.node .operatorExpression inner items) <;> rfl

theorem readAssignment_parts (s : AssignmentSequence) (parts : Readers) (span target : Span)
    (value : Node) (hvalue : value.rule = .expression) :
    readAssignment parts (.node .assignment span [
      .node .assignableExpression target (s.primary :: s.suffixes), s.operator, value]) = do
      let left ← readAssignable parts (.node .assignableExpression target (s.primary :: s.suffixes))
      let operator ← meaning AssignmentOperator.ofSymbol? s.operator
      let right ← parts.expression value
      return .assignment left operator right := by
  set node : Node := .node .assignment span [
    .node .assignableExpression target (s.primary :: s.suffixes), s.operator, value] with hnode
  have htarget : required node .assignableExpression =
      .ok (.node .assignableExpression target (s.primary :: s.suffixes)) := rfl
  have hoperator : required node .assignmentOperator = .ok s.operator := by
    have hfound : node.child? .assignmentOperator = some s.operator := by
      rw [hnode, ParseTree.child?, ParseTree.children,
        List.find?_cons_of_neg (by simp [ParseTree.rule]),
        List.find?_cons_of_pos (by simp [s.operator_rule])]
    rw [required, hfound]
  have hright : required node .expression = .ok value := by
    have hfound : node.child? .expression = some value := by
      rw [hnode, ParseTree.child?, ParseTree.children,
        List.find?_cons_of_neg (by simp [ParseTree.rule]),
        List.find?_cons_of_neg (by simp [s.operator_rule]),
        List.find?_cons_of_pos (by simp [hvalue])]
    rw [required, hfound]
  simp only [readAssignment, one, htarget, hoperator, hright, ok_bind]

/-- What is read from the statement is read from the expression, and the other way round. -/
theorem readAssignment_iff_readExpression {s : AssignmentSequence} {statement expression : Node}
    (hstatement : s.IsStatement statement) (hexpression : s.IsExpression expression)
    (target : Expression) (operator : AssignmentOperator) (value : Expression) :
    (∃ height, readAssignment (Readers.ofHeight height) statement =
        .ok (.assignment target operator value)) ↔
      ∃ height, readExpression (Readers.ofHeight height) expression =
        .ok (.assign target operator value) := by
  obtain ⟨span, targetSpan, valueSpan, inner, rfl⟩ := hstatement
  obtain ⟨span', whole, rfl⟩ := hexpression
  constructor
  · rintro ⟨height, h⟩
    rw [readAssignment_parts s _ span targetSpan _ rfl] at h
    obtain ⟨left, hleft, h⟩ := bind_eq_ok h
    obtain ⟨meant, hmeant, h⟩ := bind_eq_ok h
    obtain ⟨right, hright, h⟩ := bind_eq_ok h
    cases h
    cases height with
    | zero => cases hright
    | succ height =>
      -- The value is read one level lower than the target; the readers above agree.
      have hright : readExpression (Readers.ofHeight height)
          (.node .expression valueSpan [.node .operatorExpression inner s.value]) = .ok value :=
        hright
      rw [readExpression_bare] at hright
      have hraised := carries_operatorExpression (carries_ofHeight (Nat.le_succ height)) rfl hright
      refine ⟨height + 1, ?_⟩
      rw [readExpression_bare, readOperatorExpression_items s _ whole targetSpan inner, hleft,
        ok_bind, hraised, ok_bind, hmeant]
      rfl
  · rintro ⟨height, h⟩
    rw [readExpression_bare, readOperatorExpression_items s _ whole targetSpan inner] at h
    obtain ⟨left, hleft, h⟩ := bind_eq_ok h
    obtain ⟨right, hright, h⟩ := bind_eq_ok h
    obtain ⟨meant, hmeant, h⟩ := bind_eq_ok h
    cases h
    have hraised := carries_assignable (carries_ofHeight (Nat.le_succ height)) rfl hleft
    have hvalue : (Readers.ofHeight (height + 1)).expression
        (.node .expression valueSpan [.node .operatorExpression inner s.value]) = .ok value :=
      (readExpression_bare (Readers.ofHeight height) valueSpan inner s.value).trans hright
    refine ⟨height + 1, ?_⟩
    rw [readAssignment_parts s _ span targetSpan _ rfl, hraised, ok_bind, hmeant, ok_bind, hvalue]
    rfl

end QuovaKotlin.Reading

namespace QuovaKotlin.Peg.Grammar

variable {ρ : Type} {g : Grammar ρ} {m : Mode} {p q : Pattern ρ} {c d : Cursor}
  {ts : List (ParseTree ρ)}

/-- A second alternative that fails behind the last round does not prolong a repetition. -/
theorem Evaluates.more_choice (h : Evaluates g m (.more p) c (some (ts, d)))
    (hq : Evaluates g m q (between m d) none) :
    Evaluates g m (.more (.choice p q)) c (some (ts, d)) := by
  refine h.more_induction
    (motive := fun c ts d => Evaluates g m q (between m d) none →
      Evaluates g m (.more (.choice p q)) c (some (ts, d))) ?_ ?_ hq
  · intro c hp hq
    exact .noMore (.second hp hq)
  · intro c us e vs d hround ih hq
    exact .more (.first hround) (ih hq)

/-- A repetition behind skipped layout, taken as the later rounds of a longer one. -/
theorem Evaluates.more_of_star (h : Evaluates g m (.star p) (between m c) (some (ts, d))) :
    ∃ e, Evaluates g m (.more p) c (some (ts, e)) ∧
      (e = d ∨ e = c ∧ d = between m c) := by
  rcases h.of_star with ⟨hnone, rfl, rfl⟩ | ⟨us, vs, e, rfl, hround, hrest⟩
  · exact ⟨c, .noMore hnone, .inr ⟨rfl, rfl⟩⟩
  · exact ⟨d, .more hround hrest, .inl rfl⟩

end QuovaKotlin.Peg.Grammar

namespace QuovaKotlin.Source

open Ast Peg Peg.Grammar Reading
open Precedence (IsRun)

/-- A choice between texts fails where none of them stands. -/
theorem evaluates_noWords {m : Mode} {c : Cursor} (texts : List String)
    (h : ∀ text ∈ texts, ¬ text.toList <+: c.rest) :
    Evaluates grammar m (Pattern.words texts) c none := by
  have hfails : ∀ text ∈ texts, Evaluates grammar m (Pattern.lit text) c none := by
    intro text hmem
    refine .noText ?_
    cases hstrip : c.strip? text.toList with
    | none => rfl
    | some d => exact absurd ⟨d.rest, (Cursor.strip?_passes hstrip).rest_eq.symm⟩ (h text hmem)
  clear h
  induction texts with
  | nil => exact .noAbsent (.text rfl)
  | cons text texts ih =>
    cases texts with
    | nil => exact hfails text List.mem_cons_self
    | cons other texts =>
      exact .second (hfails text List.mem_cons_self)
        (ih fun t ht => hfails t (List.mem_cons_of_mem text ht))

/-- The texts of the operators in front of an operand. -/
def frontTexts : List String :=
  ["++", "--", "::", "+", "-", "!", "~", "*"]

/-- The character a text starts with, as a token to look at. -/
def firstMark (text : List Char) : List Token :=
  (text.take 1).map .mark

/-- No primary starts like an operator in front of one, and no cast like an assignment operator. -/
theorem look_assignment :
    (∀ text ∈ frontTexts, look Grammar.primaryExpression (firstMark text.toList) = .fails) ∧
    ∀ text ∈ (grammar.body .assignmentOperator).texts,
      look (.rule .castOperator) (firstMark text) = .fails := by
  decide +kernel

section

variable {c d : Cursor} {ts : List Node}

theorem atTokens_firstMark {text rest : List Char} (hc : c.skipLayout = c)
    (hrest : c.rest = text ++ rest) : AtTokens (firstMark text) c := by
  cases text with
  | nil => exact ⟨hc, trivial⟩
  | cons x text => exact ⟨hc, _, hrest⟩

/-- In front of a primary stands no operator. -/
theorem fails_prefixPart (hc : c.skipLayout = c)
    (h : Evaluates grammar {} Grammar.primaryExpression c (some (ts, d))) :
    Evaluates grammar {} Grammar.prefixPart c none := by
  have habsent : ∀ text ∈ frontTexts, ¬ text.toList <+: c.rest := by
    rintro text hmem ⟨rest, hrest⟩
    have hfails := fails_of_look (look_assignment.1 text hmem) (atTokens_firstMark hc hrest.symm)
    cases h.unique hfails
  refine .second (.noRule ?_) (.noRule ?_)
  · exact evaluates_noWords ["++", "--", "::", "+", "-", "!", "~"] fun t ht =>
      habsent t (List.mem_append_left ["*"] ht)
  · exact evaluates_noWords ["*"] fun t ht =>
      habsent t (List.mem_append_right ["++", "--", "::", "+", "-", "!", "~"] ht)

/-- An assignment operator is not the start of a cast. -/
theorem fails_castOperator (hc : c.skipLayout = c)
    (h : Evaluates grammar {} (.rule .assignmentOperator) c (some (ts, d))) :
    Evaluates grammar {} (.rule .castOperator) c none := by
  obtain ⟨inner, -, hbody⟩ := h.of_rule grammar_kind
  obtain ⟨u, hu, hspells⟩ := hbody.spells (by decide) _ _ rfl
  have hlook := look_assignment.2 u (hspells.mem_texts (by decide))
  exact fails_of_look hlook (atTokens_firstMark hc hu.rest_eq)

theorem primary_of_evaluates (h : Evaluates grammar {} Grammar.primaryExpression c (some (ts, d))) :
    ∃ t, ts = [t] ∧ nodeRole t = .operand := by
  have hall : ∀ ws ∈ Grammar.primaryExpression.allWords,
      ws.length = 1 ∧ ∀ rule ∈ ws, roleOf rule = .operand := by decide
  obtain ⟨hlength, hrole⟩ := hall _ ((h.makes rfl _ _ rfl).1.mem_allWords (by decide))
  rw [List.length_map] at hlength
  obtain ⟨t, rfl⟩ := List.length_eq_one_iff.mp hlength
  exact ⟨t, rfl, hrole t.rule List.mem_cons_self⟩

theorem single_of_evaluates {rule : Rule}
    (h : Evaluates grammar {} (.rule rule) c (some (ts, d))) : ∃ t, ts = [t] ∧ t.rule = rule := by
  obtain ⟨inner, rfl, -⟩ := h.of_rule grammar_kind
  exact ⟨_, rfl, treeOf_rule grammar rule c d inner⟩

theorem node_of_evaluates {rule : Rule} {t : Node}
    (h : Evaluates grammar {} (.rule rule) c (some ([t], d)))
    (hkind : grammar.kind rule = .normal) :
    t = .node rule ⟨c.index, d.index⟩ t.children := by
  obtain ⟨inner, hnode, -⟩ := h.of_rule grammar_kind
  rw [(List.cons.inj hnode).1, treeOf, hkind]
  rfl

/-- The target of an assignment is the first operand of an expression: behind it the operand ends in
the same place, since no cast follows. -/
theorem operand_of_assignable {t : Node} (hc : c.skipLayout = c)
    (h : Evaluates grammar {} (.rule .assignableExpression) c (some ([t], d)))
    (hcast : Evaluates grammar {} (.rule .castOperator) d.skipLayout none) :
    ∃ span primary suffixes e, t = .node .assignableExpression span (primary :: suffixes) ∧
      nodeRole primary = .operand ∧ (∀ x ∈ suffixes, x.rule = .postfixOperator) ∧
      Evaluates grammar {} (.star Grammar.prefixPart) c (some ([], c)) ∧
      Evaluates grammar {} Grammar.primaryExpression c (some ([primary], e)) ∧
      Evaluates grammar {} (.star Grammar.postfixPart) e.skipLayout (some (suffixes, d)) := by
  obtain ⟨us, suffixes, e, hchildren, hprimary, hsuffixes⟩ := (evaluates_children h rfl).of_seq
  obtain ⟨primary, rfl, hrole⟩ := primary_of_evaluates hprimary
  have hrules : ∀ x ∈ suffixes, x.rule = .postfixOperator := by
    intro x hx
    have hword := (hsuffixes.makes rfl _ _ rfl).1
    exact List.mem_singleton.mp (hword.mem_rules x.rule (List.mem_map_of_mem hx))
  have hsettled : between {} e.skipLayout = e.skipLayout := e.skipLayout_skipLayout
  have hmore : Evaluates grammar {} (.more Grammar.postfixPart) e.skipLayout
      (some (suffixes, d)) :=
    ((evaluates_star_iff hsettled).mp hsuffixes).more_choice hcast
  have htree := node_of_evaluates h rfl
  rw [hchildren] at htree
  exact ⟨_, primary, suffixes, e, htree, hrole, hrules, .noStar (fails_prefixPart hc hprimary),
    hprimary, (evaluates_star_iff hsettled).mpr hmore⟩

/-- An expression without a comprehension suffix ends behind its operator expression. -/
theorem operatorExpression_of_expression {t : Node}
    (h : Evaluates grammar {} (.rule .expression) c (some ([t], d)))
    (hsuffix : t.has .forSuffix = false) :
    ∃ span inner items e,
      t = .node .expression span [.node .operatorExpression inner items] ∧
      IsRun nodeRole items ∧
      Evaluates grammar {} (grammar.body .operatorExpression) c (some (items, e)) ∧
      Evaluates grammar {} (.rule .forSuffix) e.skipLayout none ∧ d = e.skipLayout := by
  have htree := node_of_evaluates h rfl
  obtain ⟨_, rest, e, hchildren, hwhole, hrest⟩ := (evaluates_children h rfl).of_seq
  obtain ⟨items, rfl, hitems⟩ := hwhole.of_rule grammar_kind
  rcases hrest.of_optional with hsome | ⟨hnone, rfl, rfl⟩
  · obtain ⟨_, rfl, -⟩ := hsome.of_rule grammar_kind
    rw [ParseTree.has, ParseTree.child?, hchildren] at hsuffix
    cases hsuffix
  · rw [hchildren] at htree
    exact ⟨_, _, items, e, htree, isRun_children (site_of_evaluates hwhole), hitems, hnone, rfl⟩

/-- An operand, an infix operator and an operator expression behind each other are an operator
expression. Layout behind its last operand is left to what follows. -/
theorem joined_operand {e f : Cursor} {us vs ws xs : List Node} (hc : c.skipLayout = c)
    (hfront : Evaluates grammar {} (.star Grammar.prefixPart) c (some ([], c)))
    (hprimary : Evaluates grammar {} Grammar.primaryExpression c (some (us, d)))
    (hback : Evaluates grammar {} (.star Grammar.postfixPart) d.skipLayout (some (vs, e)))
    (hoperator : Evaluates grammar {} Grammar.infixPart e.skipLayout (some (ws, f)))
    {g : Cursor} (hvalue : Evaluates grammar {} (grammar.body .operatorExpression) f.skipLayout
      (some (xs, g))) :
    ∃ g', g'.skipLayout = g.skipLayout ∧
      Evaluates grammar {} (grammar.body .operatorExpression) c
        (some (us ++ (vs ++ (ws ++ xs)), g')) := by
  obtain ⟨fronts, _, f₁, rfl, hvalueFront, hvalue⟩ := hvalue.of_seq
  obtain ⟨middle, _, f₂, rfl, hvaluePrimary, hvalue⟩ := hvalue.of_seq
  obtain ⟨backs, others, f₃, rfl, hvalueBack, hjoined⟩ := hvalue.of_seq
  obtain ⟨g', hmore, hend⟩ := hjoined.more_of_star
  have hsame : g'.skipLayout = g.skipLayout := by
    rcases hend with rfl | ⟨rfl, rfl⟩
    · rfl
    · exact (Cursor.skipLayout_skipLayout _).symm
  have hround := Evaluates.star (.seq hoperator (.seq hvalueFront (.seq hvaluePrimary hvalueBack)))
    hmore
  have hstart : Evaluates grammar {} Grammar.primaryExpression (between {} c) (some (us, d)) := by
    rw [between_default, hc]
    exact hprimary
  have hflat := Evaluates.seq hfront (.seq hstart (.seq hback hround))
  simp only [List.nil_append, List.append_assoc] at hflat
  exact ⟨g', hsame, hflat⟩

end

/-- Where an assignment without a comprehension suffix matches as a statement, it matches as an
expression too, up to the same place and with the same parts. -/
theorem expression_of_assignment {c d : Cursor} {statement : Node} (hc : c.skipLayout = c)
    (h : Evaluates grammar {} (.rule .assignment) c (some ([statement], d)))
    (hsuffix : ∀ value ∈ statement.childrenOf .expression, value.has .forSuffix = false) :
    ∃ (s : AssignmentSequence) (expression : Node), s.IsStatement statement ∧
      s.IsExpression expression ∧
      Evaluates grammar {} (.rule .expression) c (some ([expression], d)) := by
  have htree := node_of_evaluates h rfl
  obtain ⟨_, _, e, hchildren, htarget, hrest⟩ := (evaluates_children h rfl).of_seq
  obtain ⟨_, _, e', rfl, hoperator, hvalue⟩ := hrest.of_seq
  obtain ⟨target, rfl, -⟩ := single_of_evaluates htarget
  obtain ⟨operator, rfl, hrule⟩ := single_of_evaluates hoperator
  obtain ⟨value, rfl, hvalueRule⟩ := single_of_evaluates hvalue
  have hmem : value ∈ statement.childrenOf .expression := by
    rw [ParseTree.childrenOf, hchildren]
    exact List.mem_filter.mpr ⟨by simp, decide_eq_true hvalueRule⟩
  obtain ⟨targetSpan, primary, suffixes, e₀, rfl, hrole, hrules, hfront, hprimary, hback⟩ :=
    operand_of_assignable hc htarget (fails_castOperator e.skipLayout_skipLayout hoperator)
  obtain ⟨valueSpan, inner, items, f, rfl, hrun, hitems, hnoSuffix, rfl⟩ :=
    operatorExpression_of_expression hvalue (hsuffix value hmem)
  obtain ⟨f', hend, hflat⟩ := joined_operand hc hfront hprimary hback (.first hoperator) hitems
  let s : AssignmentSequence := ⟨primary, suffixes, operator, items, hrole, hrules, hrule, hrun⟩
  have hwhole : Evaluates grammar {} (.rule .operatorExpression) c
      (some ([.node .operatorExpression ⟨c.index, f'.index⟩ s.items], f')) := .rule hflat
  have hnone : Evaluates grammar {} (.optional (.rule .forSuffix)) (between {} f')
      (some ([], f.skipLayout)) := by
    rw [between_default, hend]
    exact .noOptional hnoSuffix
  rw [hchildren] at htree
  exact ⟨s, _, ⟨_, _, _, _, htree⟩, ⟨_, _, rfl⟩, .rule (.seq hwhole hnone)⟩

/-- The two readings of an assignment agree. The fold of a primary with any postfix operators, an
assignment operator and any operator sequence is the assignment to what the assignable expression
is read as, by that operator, of what the sequence is folded to. The statement with the same parts
is read as the same target, operator and value, and so is every text: where an assignment without a
comprehension suffix matches as a statement, it matches with the same parts as an expression. -/
theorem assignment_readings_agree :
    (∀ (s : AssignmentSequence) (parts : Readers) (whole target value : Span),
      readOperatorExpression parts (.node .operatorExpression whole s.items) = do
        let left ←
          readAssignable parts (.node .assignableExpression target (s.primary :: s.suffixes))
        let right ← readOperatorExpression parts (.node .operatorExpression value s.value)
        let operator ← meaning AssignmentOperator.ofSymbol? s.operator
        return .assign left operator right) ∧
    (∀ (s : AssignmentSequence) (statement expression : Node),
      s.IsStatement statement → s.IsExpression expression →
      ∀ target operator value,
        (∃ height, readAssignment (Readers.ofHeight height) statement =
          .ok (.assignment target operator value)) ↔
        ∃ height, readExpression (Readers.ofHeight height) expression =
          .ok (.assign target operator value)) ∧
    ∀ (c d : Cursor) (statement : Node), c.skipLayout = c →
      Evaluates grammar {} (.rule .assignment) c (some ([statement], d)) →
      (∀ value ∈ statement.childrenOf .expression, value.has .forSuffix = false) →
      ∃ (s : AssignmentSequence) (expression : Node), s.IsStatement statement ∧
        s.IsExpression expression ∧
        Evaluates grammar {} (.rule .expression) c (some ([expression], d)) :=
  ⟨readOperatorExpression_items, fun _ _ _ => readAssignment_iff_readExpression,
    fun _ _ _ => expression_of_assignment⟩

/-- The tree of `x!! += y = 1` as a statement. -/
def chainedTree : Node :=
  .node .assignment ⟨0, 12⟩ [
    .node .assignableExpression ⟨0, 3⟩ [
      .token .simpleIdentifier ⟨0, 1⟩ "x",
      .node .postfixOperator ⟨1, 3⟩ [.token .postfixToken ⟨1, 3⟩ "!!"]],
    .token .assignmentOperator ⟨4, 6⟩ "+=",
    .node .expression ⟨7, 12⟩ [
      .node .operatorExpression ⟨7, 12⟩ [
        .token .simpleIdentifier ⟨7, 8⟩ "y", .token .assignmentOperator ⟨9, 10⟩ "=",
        .node .literal ⟨11, 12⟩ [.token .integerLiteral ⟨11, 12⟩ "1"]]]]

theorem chainedTree_evaluates :
    Evaluates grammar {} (.rule .assignment) ⟨0, "x!! += y = 1;".toList⟩
      (some ([chainedTree], ⟨12, [';']⟩)) :=
  evaluates_of_run 200 (by decide +kernel)

theorem chainedTree_readings :
    ∃ expression, Evaluates grammar {} (.rule .expression) ⟨0, "x!! += y = 1;".toList⟩
        (some ([expression], ⟨12, [';']⟩)) ∧
      ∃ height, readExpression (Readers.ofHeight height) expression =
        .ok (.assign (.suffixed (.identifier "x") .notNull) .plus
          (.assign (.identifier "y") .assign (.literal (.integer "1")))) := by
  obtain ⟨-, hread, hmatch⟩ := assignment_readings_agree
  obtain ⟨s, expression, hstatement, hexpression, heval⟩ :=
    hmatch _ _ chainedTree (by decide) chainedTree_evaluates (by decide)
  exact ⟨expression, heval, (hread s _ _ hstatement hexpression _ _ _).mp ⟨2, rfl⟩⟩

end QuovaKotlin.Source

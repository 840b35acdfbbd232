import QuovaKotlin.Proofs.Reading.Expressions
import QuovaKotlin.Reading.Statements

/-!
# Reading statements

The form of a statement says which rule the node has that it is read from, and reading a statement
settles.
-/

set_option autoImplicit false

namespace QuovaKotlin.Reading

open Source (Rule)
open Ast

/-- The rules of the nodes that a form of statement is read from. -/
def statementRules : Statement → List Rule
  | .labeled .. => [.labeledStatement]
  | .declaration _ => [.declaration]
  | .conditional .. => [.ifStatement]
  | .forEach .. | .forClassic .. => [.forStatement]
  | .loop .. => [.whileStatement]
  | .break _ | .continue _ | .throw _ | .return .. => [.jumpStatement]
  | .block _ => [.block]
  | .assignment .. => [.assignment]
  | .expression _ => [.expression, .switchExpression, .whenExpression]
  | .empty => []

section

variable {node : Node} {parts : Readers} {s : Statement}

theorem rules_of_readLabeled (h : readLabeled parts node = .ok s) :
    statementRules s = [.labeledStatement] := by
  obtain ⟨label, -, h⟩ := bind_eq_ok h
  obtain ⟨statement, -, h⟩ := bind_eq_ok h
  cases h
  rfl

theorem rules_of_readAssignment (h : readAssignment parts node = .ok s) :
    statementRules s = [.assignment] := by
  obtain ⟨target, -, h⟩ := bind_eq_ok h
  obtain ⟨operator, -, h⟩ := bind_eq_ok h
  obtain ⟨value, -, h⟩ := bind_eq_ok h
  cases h
  rfl

theorem rules_of_readConditional (h : readConditional parts node = .ok s) :
    statementRules s = [.ifStatement] := by
  unfold readConditional at h
  split at h
  · cases h
  · obtain ⟨alternative, -, h⟩ := bind_eq_ok h
    obtain ⟨condition, -, h⟩ := bind_eq_ok h
    obtain ⟨consequent, -, h⟩ := bind_eq_ok h
    cases h
    rfl

theorem rules_of_readFor (h : readFor parts node = .ok s) :
    statementRules s = [.forStatement] := by
  unfold readFor at h
  split at h
  · obtain ⟨⟨item, source⟩, -, h⟩ := bind_eq_ok h
    obtain ⟨body, -, h⟩ := bind_eq_ok h
    cases h
    rfl
  · obtain ⟨header, -, h⟩ := bind_eq_ok h
    obtain ⟨initial, -, h⟩ := bind_eq_ok h
    obtain ⟨conditions, -, h⟩ := bind_eq_ok h
    obtain ⟨updates, -, h⟩ := bind_eq_ok h
    obtain ⟨body, -, h⟩ := bind_eq_ok h
    cases h
    rfl

theorem rules_of_readWhile (h : readWhile parts node = .ok s) :
    statementRules s = [.whileStatement] := by
  obtain ⟨condition, -, h⟩ := bind_eq_ok h
  obtain ⟨body, -, h⟩ := bind_eq_ok h
  cases h
  rfl

theorem rules_of_readJump (h : readJump parts node = .ok s) :
    statementRules s = [.jumpStatement] := by
  obtain ⟨keyword, -, h⟩ := bind_eq_ok h
  obtain ⟨label, -, h⟩ := bind_eq_ok h
  obtain ⟨value, -, h⟩ := bind_eq_ok h
  split at h <;> cases h <;> rfl

/-- Each rule has its own reader, so the form of a statement tells the rule. -/
theorem rule_of_readStatement (h : readStatement parts node = .ok s) :
    ∃ inner, first node = .ok inner ∧ inner.rule ∈ statementRules s := by
  obtain ⟨inner, hinner, h⟩ := bind_eq_ok h
  refine ⟨inner, hinner, ?_⟩
  split at h
  · next hrule => rw [hrule, rules_of_readLabeled h]; exact List.mem_cons_self
  · next hrule =>
    obtain ⟨_, -, rfl⟩ := map_eq_ok h
    simp [statementRules, hrule]
  · next hrule => rw [hrule, rules_of_readConditional h]; exact List.mem_cons_self
  · next hrule => rw [hrule, rules_of_readFor h]; exact List.mem_cons_self
  · next hrule => rw [hrule, rules_of_readWhile h]; exact List.mem_cons_self
  · next hrule => rw [hrule, rules_of_readJump h]; exact List.mem_cons_self
  · next hrule =>
    obtain ⟨_, -, rfl⟩ := map_eq_ok h
    simp [statementRules, hrule]
  · next hrule => rw [hrule, rules_of_readAssignment h]; exact List.mem_cons_self
  · next hrule =>
    obtain ⟨_, -, rfl⟩ := map_eq_ok h
    simp [statementRules, hrule]
  · next hrule =>
    obtain ⟨_, -, rfl⟩ := map_eq_ok h
    simp [statementRules, hrule]
  · next hrule =>
    obtain ⟨_, -, rfl⟩ := map_eq_ok h
    simp [statementRules, hrule]
  · cases h

end

variable {height : Nat} {node : Node} {parts : Readers} (hp : parts.Settle height)

include hp

theorem settles_suffixes {nodes : List Node} (operand : Expression)
    (h : ∀ n ∈ nodes, Site (height + 1) .postfixOperator n) :
    Settles (∃ n ∈ nodes, Offends n) (readSuffixes parts operand nodes) := by
  induction nodes generalizing operand with
  | nil => exact (Settles.ok operand).congr (by simp)
  | cons n nodes ih =>
    have hn := handles_postfixOperator hp n (h n (by simp))
    refine (hn.bind fun operator _ => ih (.suffixed operand operator) fun m hm =>
      h m (by simp [hm])).congr ?_
    simp

theorem handles_assignable :
    Handles (height + 1) .assignableExpression (readAssignable parts) := by
  intro node h
  obtain ⟨us, vs, hwords, hprimary, hsuffixes⟩ := h.word (by decide)
  have hsingle : ∀ ws ∈ Source.Grammar.primaryExpression.allWords, ws.length = 1 := by decide
  obtain ⟨r, rfl⟩ := List.length_eq_one_iff.mp
    (hsingle us (hprimary.mem_allWords (by decide)))
  obtain ⟨operand, suffixes, hchildren, hoperand, rfl⟩ := List.map_eq_cons_iff.mp hwords
  have hsite := h.child (hchildren ▸ List.mem_cons_self)
  have hrule : operand.rule ∈ Source.Grammar.primaryExpression.rules :=
    hprimary.mem_rules _ (by simp [hoperand])
  have hrest (n : Node) (hn : n ∈ suffixes) : Site (height + 1) .postfixOperator n := by
    have hmem := hsuffixes.mem_rules n.rule (List.mem_map_of_mem hn)
    rw [← List.mem_singleton.mp hmem]
    exact (h.child (hchildren ▸ List.mem_cons_of_mem _ hn)).mono (Nat.le_succ _)
  simp only [readAssignable, hchildren]
  refine ((settles_operand hp hsite hrule).bind fun e _ =>
    settles_suffixes hp e hrest).congr ?_
  simp [h.offends_iff_child, hchildren]

theorem handles_assignment : Handles (height + 1) .assignment (readAssignment parts) := by
  intro node h
  have hoperator : Handles height .assignmentOperator (meaning AssignmentOperator.ofSymbol?) :=
    handles_meaning (by decide)
  have hc : Covers node _ (readAssignment parts node) :=
    (Covers.one h (by decide) (handles_assignable hp).lower).bind fun _ _ =>
      (Covers.one h (by decide) hoperator).bind fun _ _ =>
        (Covers.one h (by decide) hp.expression).bind fun _ _ => .pure _
  exact hc.settles h (by decide)

theorem handles_conditional : Handles (height + 1) .ifStatement (readConditional parts) := by
  intro node h
  have hwords : node.children.map (·.rule) ∈ [[Rule.kwIf, .expression, .statementBody],
      [.kwIf, .expression, .statementBody, .kwElse, .statementBody]] :=
    (h.word (by decide)).mem_allWords (by decide)
  have hread (child : Node) (hmem : child ∈ node.children) (hrule : child.rule = .expression) :=
    hp.expression child (hrule ▸ h.child hmem)
  have hbody (body : Node) (hmem : body ∈ node.children) (hrule : body.rule = .statementBody) :=
    (handles_body hp).lower body (hrule ▸ h.child hmem)
  have hword (word : Node) (hmem : word ∈ node.children) (hinert : isInert word.rule) :=
    (h.child hmem).not_offends hinert
  simp only [List.mem_cons, List.not_mem_nil, or_false, List.map_eq_cons_iff,
    List.map_eq_nil_iff] at hwords
  rcases hwords with
    ⟨kwIf, _, hchildren, hif, condition, _, rfl, hcondition, yes, _, rfl, hyes, rfl⟩ |
    ⟨kwIf, _, hchildren, hif, condition, _, rfl, hcondition, yes, _, rfl, hyes, kwElse, _, rfl,
      helse, no, _, rfl, hno, rfl⟩
  · have hbodies : node.childrenOf .statementBody = [yes] := by
      simp [Peg.ParseTree.childrenOf, hchildren, hif, hcondition, hyes]
    have hone : node.child? .expression = some condition := by
      simp [Peg.ParseTree.child?, hchildren, hif, hcondition]
    simp only [readConditional, hbodies, List.head?_nil, Option.mapM_none, one, required, hone]
    refine ((Settles.ok none).bind fun _ _ =>
      (hread condition (by simp [hchildren]) hcondition).bind fun _ _ =>
        (hbody yes (by simp [hchildren]) hyes).bind fun _ _ => Settles.ok _).congr ?_
    have hnot := hword kwIf (by simp [hchildren]) (by rw [hif]; decide)
    simp [h.offends_iff_child, hchildren, hnot]
  · have hbodies : node.childrenOf .statementBody = [yes, no] := by
      simp [Peg.ParseTree.childrenOf, hchildren, hif, hcondition, hyes, helse, hno]
    have hone : node.child? .expression = some condition := by
      simp [Peg.ParseTree.child?, hchildren, hif, hcondition]
    simp only [readConditional, hbodies, List.head?_cons, Option.mapM_some, one, required, hone]
    refine (((hbody no (by simp [hchildren]) hno).map some).bind fun _ _ =>
      (hread condition (by simp [hchildren]) hcondition).bind fun _ _ =>
        (hbody yes (by simp [hchildren]) hyes).bind fun _ _ => Settles.ok _).congr ?_
    have hnot := hword kwIf (by simp [hchildren]) (by rw [hif]; decide)
    have hnot' := hword kwElse (by simp [hchildren]) (by rw [helse]; decide)
    simp only [h.offends_iff_child (by decide), hchildren, List.mem_cons, List.not_mem_nil,
      exists_eq_or_imp, or_false, hnot, hnot', false_or]
    grind

theorem handles_forVariable : Handles (height + 1) .forVariable (readForVariable parts) := by
  intro node h
  have hc : Covers node _ (readForVariable parts node) :=
    (covers_declaredType h (by decide)).bind fun _ _ =>
      (Covers.nameOf h (by decide)).bind fun _ _ =>
        (Covers.one h (by decide) hp.expression).bind fun _ _ => .pure _
  exact hc.settles h (by decide)

theorem handles_simpleStatement :
    Handles (height + 1) .simpleStatement (readSimpleStatement parts) := by
  intro node h
  obtain ⟨child, hchildren, hrule, hoff⟩ := h.only_child (by decide)
  have hchild := h.child (hchildren ▸ List.mem_cons_self)
  change child.rule ∈ [.assignment, .expression] at hrule
  simp only [List.mem_cons, List.not_mem_nil, or_false] at hrule
  refine Settles.congr ?_ hoff.symm
  simp only [readSimpleStatement, first, hchildren, ok_bind]
  rcases hrule with hrule | hrule <;> rw [hrule] at hchild ⊢
  · exact handles_assignment hp child (hchild.mono (Nat.le_succ _))
  · exact (hp.expression child hchild).map _

/-- Both kinds of loop end with their body, which is read last. -/
theorem handles_for : Handles (height + 1) .forStatement (readFor parts) := by
  intro node h
  have hbody := Covers.one h (by decide) (handles_body hp).lower
  have hc : Covers node [.forEachCondition, .classicForCondition, .statementBody]
      (readFor parts node) := by
    refine Covers.either h (by decide) (by decide) (by decide) (fun header hheader => ?_)
      (fun ⟨header, hheader⟩ => ?_)
    · have hread := (handles_loopHeader hp).lower header (h.found hheader)
      exact (Covers.visit h (by decide) hheader hread).bind fun _ _ =>
        hbody.bind fun _ _ => .pure _
    · have hsite := (h.found hheader).mono (Nat.le_succ _)
      have hinside : Under node .classicForCondition ↔
          ∃ x ∈ [Rule.forVariable, .expression, .simpleStatement], Under header x :=
        (h.under_iff (by decide) hheader).trans
          ((hsite.offends_iff_child (by decide)).trans (hsite.exists_under (by decide)))
      simp only [required, hheader, ok_bind]
      refine Settles.congr
        (Settles.bind (Covers.each hsite (handles_forVariable hp).lower) fun _ _ =>
          Settles.bind (Covers.each hsite hp.expression) fun _ _ =>
            Settles.bind (Covers.each hsite (handles_simpleStatement hp).lower) fun _ _ =>
              Settles.bind hbody fun _ _ => Settles.ok _) ?_
      simp [hinside, or_assoc]
  exact hc.settles h (by decide)

theorem handles_while : Handles (height + 1) .whileStatement (readWhile parts) := by
  intro node h
  have hc : Covers node _ (readWhile parts node) :=
    (Covers.one h (by decide) hp.expression).bind fun _ _ =>
      (Covers.one h (by decide) (handles_body hp).lower).bind fun _ _ => .pure _
  exact hc.settles h (by decide)

omit hp in
theorem handles_jumpLabel : Handles (height + 1) .jumpLabel nameOf :=
  fun _ h => (Covers.nameOf h (by decide)).settles h (by decide)

/-- What is thrown is always there. -/
theorem handles_jump : Handles (height + 1) .jumpStatement (readJump parts) := by
  intro node h
  obtain ⟨keyword, others, hchildren, hrule⟩ := h.first_child (by decide)
  change keyword.rule ∈ [.kwBreak, .kwContinue, .kwThrow, .kwReturn] at hrule
  simp only [List.mem_cons, List.not_mem_nil, or_false] at hrule
  have hc : Covers node ([.jumpLabel] ++ ([.expression] ++ [])) (readJump parts node) := by
    simp only [readJump, first, hchildren, ok_bind]
    refine (Covers.atMostOne h (by decide) handles_jumpLabel.lower).bind fun label _ =>
      (Covers.atMostOne h (by decide) hp.expression).bind fun value hvalue => ?_
    rcases hrule with hrule | hrule | hrule | hrule
    · rw [hrule]
      exact Covers.ok _
    · rw [hrule]
      exact Covers.ok _
    · have hmem : keyword ∈ node.children := by simp [hchildren]
      obtain ⟨throw, hthrow⟩ := exists_child? hmem hrule
      obtain ⟨thrown, hthrown⟩ : ∃ thrown, node.child? .expression = some thrown :=
        h.child?_of_present (by decide) hthrow
      rw [atMostOne, hthrown] at hvalue
      obtain ⟨value', -, rfl⟩ := map_eq_ok hvalue
      rw [hrule]
      exact Covers.ok _
    · rw [hrule]
      exact Covers.ok _
  exact hc.settles h (by decide)

theorem handles_labeled : Handles (height + 1) .labeledStatement (readLabeled parts) := by
  intro node h
  have hc : Covers node _ (readLabeled parts node) :=
    (Covers.nameOf h (by decide)).bind fun _ _ =>
      (Covers.one h (by decide) hp.statement).bind fun _ _ => .pure _
  exact hc.settles h (by decide)

theorem handles_statement : Handles (height + 1) .statement (readStatement parts) := by
  intro node h
  obtain ⟨child, hchildren, hrule, hoff⟩ := h.only_child (by decide)
  have hchild := h.child (hchildren ▸ List.mem_cons_self)
  have hhigh := hchild.mono (Nat.le_succ _)
  change child.rule ∈ [.labeledStatement, .declaration, .ifStatement, .forStatement,
    .whileStatement, .jumpStatement, .block, .assignment, .expression, .switchExpression,
    .whenExpression] at hrule
  simp only [List.mem_cons, List.not_mem_nil, or_false] at hrule
  refine Settles.congr ?_ hoff.symm
  simp only [readStatement, first, hchildren, ok_bind]
  rcases hrule with hrule | hrule | hrule | hrule | hrule | hrule | hrule | hrule | hrule | hrule |
    hrule <;> rw [hrule] at hchild hhigh ⊢
  · exact handles_labeled hp child hhigh
  · exact (hp.declaration .block child hchild).map _
  · exact handles_conditional hp child hhigh
  · exact handles_for hp child hhigh
  · exact handles_while hp child hhigh
  · exact handles_jump hp child hhigh
  · exact (handles_block hp child hhigh).map _
  · exact handles_assignment hp child hhigh
  · exact (hp.expression child hchild).map _
  · exact (handles_switch hp child hhigh).map _
  · exact (handles_when hp child hhigh).map _

end QuovaKotlin.Reading

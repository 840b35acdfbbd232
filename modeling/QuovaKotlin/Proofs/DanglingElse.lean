import QuovaKotlin.Proofs.Lexemes
import QuovaKotlin.Proofs.NearestIf
import QuovaKotlin.Proofs.Reading.File
import QuovaKotlin.Proofs.Reading.FileOrigins

/-!
# Which `if` an `else` belongs to

The nearest `if` that can take an `else` is the `if` that the `else` has in the syntax tree: greedy
matching never leaves an `else` for an outer `if` while an inner one could still take it, however
many labels, loops and branches stand between the two.
-/

set_option autoImplicit false

namespace QuovaKotlin.Ast

/-- An assignment or a jump. -/
def Statement.isSimple : Statement → Bool
  | .assignment .. | .break _ | .continue _ | .throw _ | .return .. => true
  | _ => false

theorem Statement.endsOpenly_of_isSimple {s : Statement} (h : s.isSimple) :
    s.endsOpenly = false := by
  cases s with
  | assignment | «break» | «continue» | throw | «return» => rfl
  | _ => cases h

end QuovaKotlin.Ast

namespace QuovaKotlin.Reading

open Ast Peg Peg.Grammar
open Source (Rule grammar grammar_kind)

/-- Behind the place, layout aside, no `else` with its branch follows. -/
def NoElse (d : Cursor) : Prop :=
  Evaluates grammar {} (Pattern.all [.rule .kwElse, .rule .statementBody]) d.skipLayout none

/-- No `else` follows the match of a statement that ends openly. -/
def LeavesNoElse (rule : Rule) (read : Node → Read Statement) : Prop :=
  ∀ c d node s, Evaluates grammar {} (.rule rule) c (some ([node], d)) → read node = .ok s →
    s.endsOpenly = true → NoElse d

/-- The branches of a matched conditional: one with no `else` behind it, or two with the `else`
between them. -/
theorem branches_of_ifStatement {c d : Cursor} {node : Node}
    (h : Evaluates grammar {} (.rule .ifStatement) c (some ([node], d))) :
    ∃ consequent c₁ d₁, Evaluates grammar {} (.rule .statementBody) c₁ (some ([consequent], d₁)) ∧
      (node.childrenOf .statementBody = [consequent] ∧ NoElse d₁ ∧ d = d₁.skipLayout ∨
        ∃ alternative c₂, node.childrenOf .statementBody = [consequent, alternative] ∧
          ¬ NoElse d₁ ∧
          Evaluates grammar {} (.rule .statementBody) c₂ (some ([alternative], d))) := by
  obtain ⟨_, _, _, hchildren, hif, h₁⟩ := (evaluates_children h rfl).of_seq
  obtain ⟨_, _, _, rfl, hopening, h₂⟩ := h₁.of_seq
  obtain ⟨_, _, _, rfl, hcondition, h₃⟩ := h₂.of_seq
  obtain ⟨_, _, _, rfl, hclosing, h₄⟩ := h₃.of_seq
  obtain ⟨_, _, d₁, rfl, hconsequent, hrest⟩ := h₄.of_seq
  obtain ⟨_, rfl, -⟩ := hif.of_rule grammar_kind
  obtain ⟨rfl, -⟩ := hopening.of_text
  obtain ⟨_, rfl, -⟩ := hcondition.of_rule grammar_kind
  obtain ⟨rfl, -⟩ := hclosing.of_text
  obtain ⟨_, rfl, -⟩ := hconsequent.of_rule grammar_kind
  refine ⟨_, _, d₁, hconsequent, ?_⟩
  rcases hrest.of_optional with hsome | ⟨hnone, rfl, rfl⟩
  · right
    obtain ⟨_, _, _, rfl, hkeyword, halternative⟩ := hsome.of_seq
    obtain ⟨_, rfl, -⟩ := hkeyword.of_rule grammar_kind
    obtain ⟨_, rfl, -⟩ := halternative.of_rule grammar_kind
    refine ⟨_, _, ?_, ?_, halternative⟩
    · rw [ParseTree.childrenOf, hchildren]
      rfl
    · intro hnone
      cases hsome.unique hnone
  · left
    refine ⟨?_, hnone, rfl⟩
    rw [ParseTree.childrenOf, hchildren]
    rfl

theorem isSimple_jump {parts : Readers} {node : Node} {s : Statement}
    (h : readJump parts node = .ok s) : s.isSimple := by
  obtain ⟨keyword, -, h⟩ := bind_eq_ok h
  obtain ⟨label, -, h⟩ := bind_eq_ok h
  obtain ⟨value, -, h⟩ := bind_eq_ok h
  split at h <;> cases h <;> rfl

theorem isSimple_assignment {parts : Readers} {node : Node} {s : Statement}
    (h : readAssignment parts node = .ok s) : s.isSimple := by
  obtain ⟨target, -, h⟩ := bind_eq_ok h
  obtain ⟨operator, -, h⟩ := bind_eq_ok h
  obtain ⟨value, -, h⟩ := bind_eq_ok h
  cases h
  rfl

section

variable {parts : Readers} (h : LeavesNoElse .statement parts.statement)

include h

theorem leavesNoElse_body : LeavesNoElse .statementBody (readBody parts) := by
  intro c d node s heval hread hopen
  have hchildren := evaluates_children heval rfl
  obtain ⟨body, hbody, hread⟩ := bind_eq_ok hread
  obtain ⟨rest, hfirst⟩ := first_eq_ok hbody
  rw [hfirst] at hchildren
  split at hread
  · obtain ⟨statements, -, rfl⟩ := map_eq_ok hread
    cases hopen
  · next hrule =>
    exact h _ _ body s (evaluates_alternative grammar_kind hchildren hrule (by decide)) hread hopen
  · cases hread
    cases hopen
  · cases hread

theorem leavesNoElse_labeled : LeavesNoElse .labeledStatement (readLabeled parts) := by
  intro c d node s heval hread hopen
  obtain ⟨label, -, hread⟩ := bind_eq_ok hread
  obtain ⟨inner, hinner, hread⟩ := bind_eq_ok hread
  cases hread
  obtain ⟨child, hmem, hrule, hchild⟩ := of_one hinner
  obtain ⟨e, hend⟩ := evaluates_lastChild (site_of_evaluates heval)
    (evaluates_children heval rfl) rfl (by decide) hmem hrule
  exact h _ _ child inner hend hchild hopen

theorem leavesNoElse_for : LeavesNoElse .forStatement (readFor parts) := by
  intro c d node s heval hread hopen
  have hbody : ∀ body, one node .statementBody (readBody parts) = .ok body →
      body.endsOpenly = true → NoElse d := by
    intro body hbody hopen
    obtain ⟨child, hmem, hrule, hchild⟩ := of_one hbody
    obtain ⟨e, hend⟩ := evaluates_lastChild (site_of_evaluates heval)
      (evaluates_children heval rfl) rfl (by decide) hmem hrule
    exact leavesNoElse_body h _ _ child body hend hchild hopen
  unfold readFor at hread
  split at hread
  · obtain ⟨⟨item, source⟩, -, hread⟩ := bind_eq_ok hread
    obtain ⟨body, hread', hread⟩ := bind_eq_ok hread
    cases hread
    exact hbody body hread' hopen
  · obtain ⟨header, -, hread⟩ := bind_eq_ok hread
    obtain ⟨initial, -, hread⟩ := bind_eq_ok hread
    obtain ⟨conditions, -, hread⟩ := bind_eq_ok hread
    obtain ⟨updates, -, hread⟩ := bind_eq_ok hread
    obtain ⟨body, hread', hread⟩ := bind_eq_ok hread
    cases hread
    exact hbody body hread' hopen

theorem leavesNoElse_while : LeavesNoElse .whileStatement (readWhile parts) := by
  intro c d node s heval hread hopen
  obtain ⟨condition, -, hread⟩ := bind_eq_ok hread
  obtain ⟨body, hbody, hread⟩ := bind_eq_ok hread
  cases hread
  obtain ⟨hfront, hopen⟩ := Bool.and_eq_true_iff.mp hopen
  obtain ⟨child, hmem, hrule, hchild⟩ := of_one hbody
  rcases (evaluates_children heval rfl).of_choice with hwhile | ⟨-, hdo⟩
  · obtain ⟨e, hend⟩ := evaluates_lastChild (site_of_evaluates heval) hwhile rfl (by decide)
      hmem hrule
    exact leavesNoElse_body h _ _ child body hend hchild hopen
  · -- a loop that starts with `do` tests last
    obtain ⟨us, vs, e, hchildren, hkeyword, -⟩ := hdo.of_seq
    obtain ⟨inner, rfl, -⟩ := hkeyword.of_rule grammar_kind
    have hhas : node.has .kwDo = true := by
      rw [ParseTree.has, ParseTree.child?, hchildren]
      rfl
    rw [hhas] at hfront
    cases hfront

theorem leavesNoElse_conditional : LeavesNoElse .ifStatement (readConditional parts) := by
  intro c d node s heval hread hopen
  obtain ⟨consequent, c₁, d₁, hconsequent, hbranches⟩ := branches_of_ifStatement heval
  unfold readConditional at hread
  rcases hbranches with ⟨hone, hnone, rfl⟩ | ⟨alternative, c₂, htwo, -, halternative⟩
  · -- the failed `else` of this conditional has skipped the layout already
    rw [NoElse, Cursor.skipLayout_skipLayout]
    exact hnone
  · rw [htwo] at hread
    obtain ⟨no, hno, hread⟩ := bind_eq_ok hread
    obtain ⟨condition, -, hread⟩ := bind_eq_ok hread
    obtain ⟨yes, -, hread⟩ := bind_eq_ok hread
    cases hread
    obtain ⟨last, hlast, rfl⟩ := map_eq_ok hno
    exact leavesNoElse_body h _ _ alternative last halternative hlast hopen

theorem leavesNoElse_statement : LeavesNoElse .statement (readStatement parts) := by
  intro c d node s heval hread hopen
  have hchildren := evaluates_children heval rfl
  obtain ⟨inner, hinner, hread⟩ := bind_eq_ok hread
  obtain ⟨rest, hfirst⟩ := first_eq_ok hinner
  rw [hfirst] at hchildren
  split at hread
  · next hrule =>
    exact leavesNoElse_labeled h _ _ inner s
      (evaluates_alternative grammar_kind hchildren hrule (by decide)) hread hopen
  · obtain ⟨_, -, rfl⟩ := map_eq_ok hread
    cases hopen
  · next hrule =>
    exact leavesNoElse_conditional h _ _ inner s
      (evaluates_alternative grammar_kind hchildren hrule (by decide)) hread hopen
  · next hrule =>
    exact leavesNoElse_for h _ _ inner s
      (evaluates_alternative grammar_kind hchildren hrule (by decide)) hread hopen
  · next hrule =>
    exact leavesNoElse_while h _ _ inner s
      (evaluates_alternative grammar_kind hchildren hrule (by decide)) hread hopen
  · rw [Statement.endsOpenly_of_isSimple (isSimple_jump hread)] at hopen
    cases hopen
  · obtain ⟨_, -, rfl⟩ := map_eq_ok hread
    cases hopen
  · rw [Statement.endsOpenly_of_isSimple (isSimple_assignment hread)] at hopen
    cases hopen
  · obtain ⟨_, -, rfl⟩ := map_eq_ok hread
    cases hopen
  · obtain ⟨_, -, rfl⟩ := map_eq_ok hread
    cases hopen
  · obtain ⟨_, -, rfl⟩ := map_eq_ok hread
    cases hopen
  · cases hread

end

theorem leavesNoElse_ofHeight (height : Nat) :
    LeavesNoElse .statement (Readers.ofHeight height).statement := by
  induction height with
  | zero =>
    intro c d node s _ hread
    cases hread
  | succ height ih => exact leavesNoElse_statement ih

/-- A conditional with an `else` has a first branch that does not end openly. -/
theorem closed_of_readConditional {height : Nat} {c d : Cursor} {node : Node}
    {condition : Expression} {consequent alternative : Statement}
    (heval : Evaluates grammar {} (.rule .ifStatement) c (some ([node], d)))
    (hread : readConditional (Readers.ofHeight height) node =
      .ok (.conditional condition consequent (some alternative))) :
    consequent.endsOpenly = false := by
  obtain ⟨first, c₁, d₁, hfirst, hbranches⟩ := branches_of_ifStatement heval
  unfold readConditional at hread
  rcases hbranches with ⟨hone, -, -⟩ | ⟨second, c₂, htwo, helse, -⟩
  · rw [hone] at hread
    obtain ⟨no, hno, hread⟩ := bind_eq_ok hread
    obtain ⟨_, -, hread⟩ := bind_eq_ok hread
    obtain ⟨yes, -, hread⟩ := bind_eq_ok hread
    cases hread
    cases hno
  · rw [htwo] at hread
    obtain ⟨no, -, hread⟩ := bind_eq_ok hread
    obtain ⟨_, -, hread⟩ := bind_eq_ok hread
    obtain ⟨yes, hyes, hread⟩ := bind_eq_ok hread
    cases hread
    cases hopen : consequent.endsOpenly with
    | false => rfl
    | true =>
      exact absurd (leavesNoElse_body (leavesNoElse_ofHeight height) _ _ first consequent hfirst
        hyes hopen) helse

/-- Only the reader of `if` makes a conditional. -/
theorem readConditional_of_readStatement {parts : Readers} {node : Node} {condition : Expression}
    {consequent : Statement} {alternative : Option Statement}
    (h : readStatement parts node = .ok (.conditional condition consequent alternative)) :
    ∃ inner rest, node.children = inner :: rest ∧ inner.rule = .ifStatement ∧
      readConditional parts inner = .ok (.conditional condition consequent alternative) := by
  obtain ⟨inner, hinner, hrule⟩ := rule_of_readStatement h
  obtain ⟨rest, hfirst⟩ := first_eq_ok hinner
  have hif : inner.rule = .ifStatement := List.mem_singleton.mp hrule
  unfold readStatement at h
  rw [hinner, ok_bind, hif] at h
  exact ⟨inner, rest, hfirst, hif, h⟩

end QuovaKotlin.Reading

namespace QuovaKotlin.Source

open Ast Peg Peg.Grammar Reading

/-- No first branch of a conditional with an `else` ends openly, wherever it stands in a file. -/
theorem closed_of_contains {text : String} {file : SourceFile} (h : parse text = .ok file)
    {condition : Expression} {consequent alternative : Statement}
    (hpart : file.Contains (.statement (.conditional condition consequent (some alternative)))) :
    consequent.endsOpenly = false := by
  obtain ⟨tree, htree, hfile⟩ := tree_of_parse h
  have hstatement : ∀ height node, ParseTree.Within node tree → node.rule = .statement →
      readStatement (Readers.ofHeight height) node =
        .ok (.conditional condition consequent (some alternative)) →
      consequent.endsOpenly = false := by
    intro height node hnode hrule hread
    obtain ⟨inner, rest, hfirst, hif, hread⟩ := readConditional_of_readStatement hread
    obtain ⟨c, d, heval⟩ := evaluates_of_within grammar_kind htree hnode
    rw [hrule] at heval
    have hchildren := evaluates_children heval rfl
    rw [hfirst] at hchildren
    exact closed_of_readConditional
      (evaluates_alternative grammar_kind hchildren hif (by decide)) hread
  obtain ⟨height, node, hnode, hreading⟩ := origin_of_contains hfile hpart
  rcases hreading with ⟨hrule, hread⟩ | ⟨-, hread⟩ | ⟨-, hread⟩
  · exact hstatement height node hnode hrule hread
  · obtain ⟨body, hbody, hread⟩ := bind_eq_ok hread
    split at hread
    · obtain ⟨_, -, heq⟩ := map_eq_ok hread
      cases heq
    · next hrule =>
      cases height with
      | zero => cases hread
      | succ height =>
        exact hstatement height body (.of_mem (of_first hbody) hnode) hrule hread
    · cases hread
    · cases hread
  · obtain ⟨inner, -, hread⟩ := bind_eq_ok hread
    split at hread
    · cases isSimple_assignment hread
    · obtain ⟨_, -, heq⟩ := map_eq_ok hread
      cases heq
    · cases hread

/-- In every accepted text an `else` belongs to the nearest `if`: a conditional with an `else` has a
first branch that does not end openly, and reading the pieces that a statement is printed as by the
rule of the nearest `if` gives every `else` to the `if` that it has in the syntax tree. -/
theorem else_of_nearest_if {text : String} {file : SourceFile} (h : parse text = .ok file)
    {s : Statement} (hs : file.Contains (.statement s)) :
    (∀ condition consequent alternative, s = .conditional condition consequent (some alternative) →
      consequent.endsOpenly = false) ∧
    Chunk.texts s.chunks = s.kotlin ∧ nearestIf s.chunks = some s.association := by
  have hnested : s.Nested := fun _ _ _ hwithin => closed_of_contains h (hs.within hwithin)
  refine ⟨?_, s.texts_chunks, s.nearestIf_chunks hnested⟩
  rintro condition consequent alternative rfl
  exact hnested _ _ _ (.self _)

/-- The tree of `f() { if (a) if (b) c = d ? e : g; else; else; }`. -/
def threeElsesTree : Node :=
  .node .quovaFile ⟨0, 48⟩ [
    .node .declaration ⟨0, 48⟩ [
      .node .functionDeclaration ⟨0, 48⟩ [
        .token .simpleIdentifier ⟨0, 1⟩ "f", .node .valueParameters ⟨1, 3⟩ [],
        .node .functionBody ⟨4, 48⟩ [
          .node .block ⟨4, 48⟩ [
            .node .statement ⟨6, 46⟩ [
              .node .ifStatement ⟨6, 46⟩ [
                .token .kwIf ⟨6, 8⟩ "if", nameTree 10 "a",
                .node .statementBody ⟨13, 40⟩ [
                  .node .statement ⟨13, 40⟩ [
                    .node .ifStatement ⟨13, 40⟩ [
                      .token .kwIf ⟨13, 15⟩ "if", nameTree 17 "b",
                      .node .statementBody ⟨20, 34⟩ [
                        .node .statement ⟨20, 34⟩ [
                          .node .assignment ⟨20, 33⟩ [
                            .node .assignableExpression ⟨20, 22⟩ [
                              .token .simpleIdentifier ⟨20, 21⟩ "c"],
                            .token .assignmentOperator ⟨22, 23⟩ "=",
                            .node .expression ⟨24, 33⟩ [
                              .node .operatorExpression ⟨24, 33⟩ [
                                .token .simpleIdentifier ⟨24, 25⟩ "d",
                                .node .ternaryOperator ⟨26, 31⟩ [
                                  .node .expression ⟨28, 30⟩ [
                                    .node .operatorExpression ⟨28, 30⟩ [
                                      .token .simpleIdentifier ⟨28, 29⟩ "e"]]],
                                .token .simpleIdentifier ⟨32, 33⟩ "g"]]]]],
                      .token .kwElse ⟨35, 39⟩ "else", emptyBodyTree 39]]],
                .token .kwElse ⟨41, 45⟩ "else", emptyBodyTree 45]]]]]],
    .node .endOfInput ⟨48, 48⟩ []]

def threeElses : Statement :=
  .conditional (.identifier "a")
    (.conditional (.identifier "b")
      (.assignment (.identifier "c") .assign
        (.ternary (.identifier "d") (.identifier "e") (.identifier "g")))
      (some .empty))
    (some .empty)

def threeElsesFile : SourceFile where
  shebang := none
  package := none
  imports := [.standardLibrary, .integerAlias]
  declarations :=
    [.function ⟨[], .internalAccess, none, [], [], none, "f", [], [], .block [threeElses]⟩]

theorem parse_threeElses :
    parse "f() \x7b if (a) if (b) c = d ? e : g; else; else; \x7d" = .ok threeElsesFile :=
  parse_of_toOption threeElsesTree (by decide +kernel) rfl

theorem threeElsesFile_contains : threeElsesFile.Contains (.statement threeElses) :=
  ⟨_, List.mem_cons_self, .child List.mem_cons_self
    (.child List.mem_cons_self (.child List.mem_cons_self (.self _)))⟩

theorem threeElses_nearest :
    parse "f() \x7b if (a) if (b) c = d ? e : g; else; else; \x7d" = .ok threeElsesFile ∧
    threeElsesFile.Contains (.statement threeElses) ∧
    (∀ condition consequent alternative,
      threeElses = .conditional condition consequent (some alternative) →
      consequent.endsOpenly = false) ∧
    Chunk.texts threeElses.chunks =
      "if (a) if (b) c = if (d) e else g else \x7b\x7d else \x7b\x7d" ∧
    nearestIf threeElses.chunks = some (.conditional "if (a) "
      (.conditional "if (b) "
        (.headed "c = " (.conditional "if (d) " (.closed "e") (some (.closed "g"))))
        (some (.closed "\x7b\x7d")))
      (some (.closed "\x7b\x7d"))) :=
  ⟨parse_threeElses, threeElsesFile_contains,
    else_of_nearest_if parse_threeElses threeElsesFile_contains⟩

end QuovaKotlin.Source

import QuovaKotlin.Proofs.Reading.Declarations
import QuovaKotlin.Proofs.Termination
import QuovaKotlin.Source.Parse

/-!
# Every text is settled

The readers of a height settle all trees of that height. So a text is refused by the grammar, or its
tree holds a constructor call with a dictionary, or it has a syntax tree; there is no fourth way.
-/

set_option autoImplicit false

namespace QuovaKotlin.Reading

open Source (Rule)

/-- One level more of readers settles trees of one level more. -/
theorem Readers.Settle.next {parts : Readers} {height : Nat} (hp : parts.Settle height) :
    parts.next.Settle (height + 1) where
  expression := handles_expression hp
  statement := handles_statement hp
  declaration := handles_declaration hp
  conditions := handles_conditions hp

theorem settle_ofHeight (height : Nat) : (Readers.ofHeight height).Settle height := by
  induction height with
  | zero =>
    exact ⟨fun _ h => absurd h not_site_zero, fun _ h => absurd h not_site_zero,
      fun _ _ h => absurd h not_site_zero, fun _ h => absurd h not_site_zero⟩
  | succ height ih => exact ih.next

theorem handles_importHeader {height : Nat} : Handles (height + 1) .importHeader readImport := by
  intro node h
  have hlist : Handles height .importList fun list : Node =>
      (pure ((list.childrenOf .simpleIdentifier).map (·.text)) : Read (List String)) :=
    fun _ hlist => hlist.settles_ok (by decide) _
  have halias : Handles (height + 1) .importAlias nameOf :=
    fun _ halias => (Covers.nameOf halias (by decide)).settles halias (by decide)
  have hc : Covers node _ (readImport node) :=
    (Covers.listUnder h (by decide) hlist).bind fun _ _ =>
      (Covers.atMostOne h (by decide) halias.lower).bind fun _ _ =>
        (Covers.textOf h (by decide)).bind fun _ _ => .pure _
  exact hc.settles h (by decide)

/-- A file is read with the readers of its own height. -/
theorem settles_file {node : Node} (hmade : Source.grammar.Makes node)
    (hrule : node.rule = .quovaFile) : Settles (Offends node) (readFile node) := by
  have h : Site (node.height + 1) .quovaFile node := ⟨hmade, hrule, Nat.le_succ _⟩
  have hpackage :
      Handles (node.height + 1) .packageHeader fun header => textOf header .identifier :=
    fun _ hheader => (Covers.textOf hheader (by decide)).settles hheader (by decide)
  have hc : Covers node _ (readFile node) :=
    (Covers.atMostOne h (by decide) hpackage.lower).bind fun _ _ =>
      (Covers.each h handles_importHeader.lower).bind fun _ _ =>
        (Covers.each h ((settle_ofHeight node.height).declaration .member)).bind fun _ _ => .pure _
  exact hc.settles h (by decide)

end QuovaKotlin.Reading

namespace QuovaKotlin.Source

open Reading (Offends)

theorem parse_refused {text : String} {t : Peg.Attempts Rule}
    (h : grammar.parse .quovaFile text = .error t) :
    ∃ offset expectation, parse text = .error (.rejected offset expectation) := by
  refine ⟨Text.byteOffset text t.furthest, grammar.expectation t, ?_⟩
  simp only [parse, parseTree, h]
  rfl

theorem parse_of_tree {text : String} {tree : Reading.Node}
    (h : grammar.parse .quovaFile text = .ok tree) :
    parse text = (Reading.readFile tree).mapError (·.problem text) := by
  simp only [parse, parseTree, h]
  rfl

theorem tree_of_parse {text : String} {file : Ast.SourceFile} (h : parse text = .ok file) :
    ∃ tree, grammar.parse .quovaFile text = .ok tree ∧ Reading.readFile tree = .ok file := by
  cases hparse : grammar.parse .quovaFile text with
  | error attempts =>
    obtain ⟨offset, expectation, hrefused⟩ := parse_refused hparse
    rw [hrefused] at h
    cases h
  | ok tree =>
    rw [parse_of_tree hparse] at h
    refine ⟨tree, rfl, ?_⟩
    cases hread : Reading.readFile tree with
    | error problem =>
      rw [hread] at h
      cases h
    | ok file' =>
      rw [hread] at h
      cases h
      rfl

/-- The tree of an expression that is a name of one letter. -/
def nameTree (start : Nat) (name : String) : Reading.Node :=
  .node .expression ⟨start, start + 1⟩ [
    .node .operatorExpression ⟨start, start + 1⟩ [.token .simpleIdentifier ⟨start, start + 1⟩ name]]

/-- The tree of a `;` as a statement body. -/
def emptyBodyTree (start : Nat) : Reading.Node :=
  .node .statementBody ⟨start, start + 1⟩ [.node .emptyStatement ⟨start, start + 1⟩ []]

theorem parse_of_toOption {text : String} {file : Ast.SourceFile} (tree : Reading.Node)
    (htree : (grammar.parse .quovaFile text).toOption = some tree)
    (hread : Reading.readFile tree = .ok file) : parse text = .ok file := by
  rw [parse_of_tree (Reading.ok_of_toOption htree), hread]
  rfl

theorem parse_eq_ok_iff {text : String} {file : Ast.SourceFile} :
    parse text = .ok file ↔
      ∃ tree, grammar.Accepts .quovaFile text tree ∧ Reading.readFile tree = .ok file := by
  rcases grammar_decides .quovaFile text with
    ⟨tree, hparse, haccepts⟩ | ⟨⟨attempts, hparse⟩, hrefuses⟩
  · constructor
    · intro h
      obtain ⟨tree', hparse', hread⟩ := tree_of_parse h
      rw [hparse] at hparse'
      cases hparse'
      exact ⟨tree, haccepts, hread⟩
    · rintro ⟨tree', haccepts', hread⟩
      obtain rfl := haccepts.unique haccepts'
      rw [parse_of_tree hparse, hread]
      rfl
  · obtain ⟨offset, expectation, hrefused⟩ := parse_refused hparse
    constructor
    · intro h
      rw [hrefused] at h
      cases h
    · rintro ⟨tree, haccepts, -⟩
      exact absurd hrefuses haccepts.not_refuses

/-- A text is refused, or it holds a constructor call with a dictionary, or it has a syntax tree. -/
theorem parse_cases (text : String) :
    (grammar.Refuses .quovaFile text ∧
      ∃ offset expectation, parse text = .error (.rejected offset expectation)) ∨
    ∃ tree, grammar.Accepts .quovaFile text tree ∧
      (Offends tree ∧ (∃ construct range, parse text = .error (.unsupported construct range)) ∨
        ¬ Offends tree ∧ ∃ file, parse text = .ok file) := by
  rcases grammar_decides .quovaFile text with ⟨tree, hparse, haccepts⟩ | ⟨⟨t, hparse⟩, hrefuses⟩
  · obtain ⟨hmade, hrule⟩ := Peg.Grammar.parse_makes hparse
    obtain ⟨hok, herror⟩ := Reading.settles_file hmade hrule
    refine .inr ⟨tree, haccepts, ?_⟩
    rw [parse_of_tree hparse]
    by_cases hoff : Offends tree
    · obtain ⟨construct, span, hread⟩ := herror hoff
      exact .inl ⟨hoff, construct, Reading.byteRange text span, by rw [hread]; rfl⟩
    · obtain ⟨file, hread⟩ := hok hoff
      exact .inr ⟨hoff, file, by rw [hread]; rfl⟩
  · exact .inl ⟨hrefuses, parse_refused hparse⟩

/-- Parsing ends in one of three ways. It is refused exactly when the grammar does not match the
text, it is unsupported exactly when the tree of the text holds a constructor call with a dictionary
at some depth, and in all other cases there is a syntax tree: no part is ever missing. -/
theorem parse_outcomes (text : String) :
    ((∃ offset expectation, parse text = .error (.rejected offset expectation)) ↔
      grammar.Refuses .quovaFile text) ∧
    ((∃ construct range, parse text = .error (.unsupported construct range)) ↔
      ∃ tree, grammar.Accepts .quovaFile text tree ∧ Offends tree) ∧
    ((∃ file, parse text = .ok file) ↔
      ∃ tree, grammar.Accepts .quovaFile text tree ∧ ¬ Offends tree) ∧
    ∀ problem, parse text = .error problem →
      problem.kind = .parse ∨ problem.kind = .unsupported := by
  rcases parse_cases text with ⟨hrefuses, offset, expectation, hparse⟩ | ⟨tree, haccepts, hread⟩
  · have hnone (tree : Reading.Node) : ¬ grammar.Accepts .quovaFile text tree :=
      fun haccepts => haccepts.not_refuses hrefuses
    simp [hparse, hrefuses, hnone, Problem.kind]
  · have hunique (other : Reading.Node) :
        grammar.Accepts .quovaFile text other ↔ other = tree :=
      ⟨fun hother => hother.unique haccepts, fun heq => heq ▸ haccepts⟩
    rcases hread with ⟨hoff, construct, range, hparse⟩ | ⟨hoff, file, hparse⟩
    · simp [hparse, haccepts.not_refuses, hunique, hoff, Problem.kind]
    · simp [hparse, haccepts.not_refuses, hunique, hoff]

end QuovaKotlin.Source

import QuovaKotlin.Proofs.Lookahead
import QuovaKotlin.Proofs.PrintedGroups
import QuovaKotlin.Proofs.Reading.File

/-!
# Expressions of a file, read back from their text

Grouping the printed tokens of an expression of identifiers, integers, parentheses and infix
operators gives the expression back, if it stands in a file or is built from such expressions with
no right operand of the class of its operator. The three-way comparison is the one exception: it is
printed as a call, and the tokens of a call are no row of operands and operators.
-/

set_option autoImplicit false

namespace QuovaKotlin.Lexical

open Peg

namespace Spans

theorem enclosed {text : String} {ts : List String} (h : Spans Opens Ends text.toList ts) :
    Spans Opens Ends ("(" ++ text ++ ")").toList ("(" :: (ts ++ [")"])) := by
  rw [String.toList_append, String.toList_append, List.append_assoc]
  exact h.parenthesized.mono (fun _ h => h.opens) fun _ h => h

theorem word {x : Char} {w : List Char} (hx : ¬ x.isDigit) (hw : (x :: w).all isWordChar) :
    Spans (x ∈ ·.head?) Ends (x :: w) [.ofList (x :: w)] where
  segment hpasses :=
    .one ((term (isTerm_word hx hw)).solid hpasses) hpasses (List.cons_ne_nil x w)
      (fun _ _ hview => (isTerm_word hx hw).lexeme_eq hview.1 hview.2) fun _ _ => rfl
  solid := (term (isTerm_word hx hw)).solid

/-- No number goes on behind a point, if a letter follows it. -/
theorem point {x : Char} (hx : ¬ x.isDigit) (hopening : isOpening x) :
    Spans Ends (x ∈ ·.head?) ['.'] ["."] where
  segment hpasses := by
    refine .symbol hpasses (skipLayout_of_passes hpasses (by decide)) (by decide) (by decide) ?_ ?_
    · intro stop hview y hy
      obtain rfl : x = y := Option.some.inj (hview.symm.trans hy)
      exact not_extends_of_isOpening (List.cons_ne_nil _ _) hopening
        (fun _ h => absurd h (by decide)) fun _ h => absurd h (by decide)
    · intro view hview
      obtain ⟨rest, rfl⟩ := List.head?_eq_some_iff.mp hview
      refine ⟨fun y hy => ?_, if_neg hx⟩
      obtain rfl : '.' = y := Option.some.inj hy
      decide
  solid hpasses := skipLayout_of_passes hpasses (by decide)

/-- The opening parenthesis of a call ends the name before it. -/
theorem bracket {after : List Char → Prop} : Spans Ends after ['('] ["("] where
  segment hpasses := segment_opening hpasses fun _ => ⟨by simp [OffWord]; decide, rfl⟩
  solid hpasses := skipLayout_of_passes hpasses (by decide)

/-- A member is called with one argument. -/
theorem called {before : List Char → Prop} {u v w : List Char} {x : Char} {ts us : List String}
    (hx : ¬ x.isDigit) (hw : (x :: w).all isWordChar) (hleft : Spans before Ends u ts)
    (hright : Spans Opens Ends v us) :
    Spans before Ends (u ++ (['.'] ++ ((x :: w) ++ (['('] ++ (v ++ [')'])))))
      (ts ++ (["."] ++ ([.ofList (x :: w)] ++ (["("] ++ (us ++ [")"]))))) := by
  have hopening : isOpening x := by
    simp [isOpening, List.all_eq_true.mp hw x List.mem_cons_self]
  exact hleft.append ((point hx hopening).append
    ((word hx hw).append (bracket.append (hright.append closing))))

end Spans

end QuovaKotlin.Lexical

namespace QuovaKotlin.Regrouping

theorem step_point (s : Dialect.State Item Ast.Expression) : dialect.step s "." = none := by
  obtain ⟨outer, row, place⟩ := s
  cases place with
  | operator => cases row <;> rfl
  | operand | negated | member _ | arguments _ => rfl

/-- A row with a point in it is not one of operands and operators. -/
theorem tree?_of_point {tokens : List String} (h : "." ∈ tokens) : tree? tokens = none :=
  Dialect.read?_of_mem step_point h

end QuovaKotlin.Regrouping

namespace QuovaKotlin.Ast

open Peg Peg.Grammar
open Lexical (Spans Opens Ends)

namespace Expression

/-- Identifiers, integers, parentheses and infix operators, and nothing else. -/
inductive OfIntegers : Expression → Prop
  | integer (text : String) : OfIntegers (.integer text)
  | identifier (name : String) : OfIntegers (.identifier name)
  | parenthesized {inner : Expression} : OfIntegers inner → OfIntegers (.parenthesized inner)
  | binary (operator : BinaryOperator) {left right : Expression} :
      OfIntegers left → OfIntegers right → OfIntegers (.binary operator left right)

/-- Such an expression with leaves that can be written, in which no right operand is of the class of
its operator. -/
inductive Legible : Expression → Prop
  | integer {text : String} : Source.grammar.Reads .integerLiteral text.toList →
      Legible (.integer text)
  | identifier {name : String} : IsIdentifier name → Legible (.identifier name)
  | parenthesized {inner : Expression} : Legible inner → Legible (.parenthesized inner)
  | binary {operator : BinaryOperator} {left right : Expression} : Legible left → Legible right →
      (∀ o ∈ right.operator?, o.rule ≠ operator.rule) → Legible (.binary operator left right)

/-- Somewhere in the expression there is a three-way comparison. -/
def compares : Expression → Bool
  | .parenthesized inner => inner.compares
  | .binary operator left right => operator = .spaceship || (left.compares || right.compares)
  | _ => false

/-- The text of an expression with its priority. -/
def rendered (e : Expression) : Rendered :=
  ⟨e.priority, e.kotlin⟩

theorem Legible.apart {e : Expression} (h : e.Legible) : e.Apart := by
  intro operator left right hwithin
  induction h with
  | integer | identifier =>
    cases hwithin with
    | child hmem _ => cases hmem
  | parenthesized _ ih =>
    cases hwithin with
    | child hmem hinner =>
      obtain rfl := List.mem_singleton.mp hmem
      exact ih hinner
  | binary _ _ hclass ihl ihr =>
    cases hwithin with
    | self => exact hclass
    | child hmem hinner =>
      rcases List.mem_cons.mp hmem with rfl | hmem
      · exact ihl hinner
      · obtain rfl := List.mem_singleton.mp hmem
        exact ihr hinner

theorem Legible.elementary {e : Expression} (h : e.Legible) (hcompares : e.compares = false) :
    e.Elementary := by
  induction h with
  | integer hreads => exact .integer hreads
  | identifier hname => exact .identifier hname
  | parenthesized _ ih => exact .parenthesized (ih hcompares)
  | @binary operator left right _ _ _ ihl ihr =>
    obtain ⟨hoperator, hoperands⟩ := Bool.or_eq_false_iff.mp hcompares
    obtain ⟨hleft, hright⟩ := Bool.or_eq_false_iff.mp hoperands
    refine .binary ?_ (ihl hleft) (ihr hright)
    cases operator with
    | spaceship => cases hoperator
    | _ => trivial

/-- The text is a row of tokens, and a three-way comparison leaves a point among them. -/
def Spelled (e : Expression) : Prop :=
  ∃ ts, Spans Opens Ends e.kotlin.toList ts ∧ (e.compares → "." ∈ ts)

/-- An operand, with the parentheses that it takes. -/
theorem Spelled.under {e : Expression} (h : e.Spelled) (enclosing : Int) :
    ∃ ts, Spans Opens Ends (e.rendered.under enclosing).toList ts ∧ (e.compares → "." ∈ ts) := by
  obtain ⟨ts, hspans, hpoint⟩ := h
  unfold Rendered.under
  split
  · exact ⟨_, hspans.enclosed,
      fun hc => List.mem_cons_of_mem _ (List.mem_append_left _ (hpoint hc))⟩
  · exact ⟨ts, hspans, hpoint⟩

theorem spelled_term {e : Expression} (hterm : Lexical.IsTerm e.kotlin.toList)
    (hcompares : e.compares = false) : e.Spelled := by
  refine ⟨_, (spans_term hterm).mono (fun _ h => h.opens) fun _ h => h, fun hc => ?_⟩
  rw [hcompares] at hc
  cases hc

theorem Spelled.parenthesized {inner : Expression} (h : inner.Spelled) :
    (Expression.parenthesized inner).Spelled := by
  obtain ⟨ts, hspans, hpoint⟩ := h
  exact ⟨_, hspans.enclosed,
    fun hc => List.mem_cons_of_mem _ (List.mem_append_left _ (hpoint hc))⟩

/-- A three-way comparison is printed as a call. -/
theorem spans_spaceship {left right : Expression} {ts us : List String}
    (hleft : Spans Opens Ends (left.rendered.under Priority.suffixed).toList ts)
    (hright : Spans Opens Ends right.kotlin.toList us) :
    Spans Opens Ends (Expression.binary .spaceship left right).kotlin.toList
      (ts ++ (["."] ++ (["compareTo"] ++ (["("] ++ (us ++ [")"]))))) := by
  have htext : (Expression.binary .spaceship left right).kotlin.toList =
      (left.rendered.under Priority.suffixed).toList ++
        (['.'] ++ (('c' :: "ompareTo".toList) ++ (['('] ++ (right.kotlin.toList ++ [')'])))) := by
    show (_ ++ ".compareTo(" ++ _ ++ ")" : String).toList = _
    simp only [String.toList_append, List.append_assoc]
    rfl
  have hcall := hleft.called (x := 'c') (w := "ompareTo".toList) (by decide) (by decide) hright
  rw [← htext] at hcall
  exact hcall

/-- Any other operator is printed with a symbol between its operands. -/
theorem spans_symbol {operator : BinaryOperator} {left right : Expression} {ts us : List String}
    (hplain : operator.IsPlain)
    (hleft : Spans Opens Ends (left.rendered.under operator.priority).toList ts)
    (hright : Spans Opens Ends (right.rendered.under operator.priority).toList us) :
    Spans Opens Ends (Expression.binary operator left right).kotlin.toList
      (ts ++ (Lexical.lexemes operator.symbol ++ us)) := by
  by_cases hrange : operator = .range
  · subst hrange
    have htext : (Expression.binary .range left right).kotlin =
        left.rendered.under Priority.range ++ ".." ++ right.rendered.under Priority.range := rfl
    rw [htext, String.toList_append, String.toList_append, List.append_assoc]
    exact hleft.ranged hright
  · have htext : (Expression.binary operator left right).kotlin =
        left.rendered.under operator.priority ++ " " ++ operator.symbol ++ " " ++
          right.rendered.under operator.priority := by
      cases operator with
      | range => exact absurd rfl hrange
      | spaceship => exact hplain.elim
      | _ => rfl
    have hjoined := Spans.joined hplain hleft hright
    rw [htext]
    simp only [String.toList_append, List.append_assoc] at hjoined ⊢
    exact hjoined

theorem isPlain_of_ne_spaceship {operator : BinaryOperator} (h : operator ≠ .spaceship) :
    operator.IsPlain := by
  cases operator with
  | spaceship => exact absurd rfl h
  | _ => trivial

theorem Spelled.binary {operator : BinaryOperator} {left right : Expression} (hl : left.Spelled)
    (hr : right.Spelled) : (Expression.binary operator left right).Spelled := by
  by_cases hspaceship : operator = .spaceship
  · subst hspaceship
    obtain ⟨ts, hleft, -⟩ := hl.under Priority.suffixed
    obtain ⟨us, hright, -⟩ := hr
    exact ⟨_, spans_spaceship hleft hright, fun _ => by simp⟩
  obtain ⟨ts, hleft, hts⟩ := hl.under operator.priority
  obtain ⟨us, hright, hus⟩ := hr.under operator.priority
  refine ⟨_, spans_symbol (isPlain_of_ne_spaceship hspaceship) hleft hright, fun hc => ?_⟩
  simp only [compares, decide_eq_false hspaceship, Bool.false_or, Bool.or_eq_true] at hc
  rcases hc with hc | hc
  · exact List.mem_append_left _ (hts hc)
  · exact List.mem_append_right _ (List.mem_append_right _ (hus hc))

theorem Legible.spelled {e : Expression} (h : e.Legible) : e.Spelled := by
  induction h with
  | integer hreads => exact spelled_term (Lexical.isTerm_integerLiteral hreads) rfl
  | identifier hname => exact spelled_term (isTerm_identifier hname) rfl
  | parenthesized _ ih => exact ih.parenthesized
  | binary _ _ _ ihl ihr => exact ihl.binary ihr

/-- The printed tokens of a legible expression give it back, up to parentheses, if it compares
nothing three ways. -/
theorem Legible.tree?_kotlin {e : Expression} (h : e.Legible) (hcompares : e.compares = false) :
    ∃ e', Regrouping.tree? (Lexical.lexemes e.kotlin) = some e' ∧ e'.bare = e.bare := by
  have he := h.elementary hcompares
  have htree := Regrouping.tree?_kotlin (he.explicit_bracketed h.apart)
  rw [kotlin_bracketed he] at htree
  exact ⟨e.bracketed, htree, bare_bracketed he⟩

theorem Legible.tree?_eq_none {e : Expression} (h : e.Legible) (hcompares : e.compares) :
    Regrouping.tree? (Lexical.lexemes e.kotlin) = none := by
  obtain ⟨ts, hspans, hpoint⟩ := h.spelled
  rw [hspans.lexemes_eq]
  exact Regrouping.tree?_of_point (hpoint hcompares)

end Expression

/-- The text of a token of a file is one that its rule reads. -/
theorem reads_of_within {text : String} {tree node : Reading.Node}
    (htree : Source.grammar.parse .quovaFile text = .ok tree)
    (hnode : ParseTree.Within node tree) (hkind : Source.grammar.kind node.rule = .atomic) :
    Source.grammar.Reads node.rule node.text.toList := by
  obtain ⟨c, d, heval⟩ := evaluates_of_within Source.grammar_kind htree hnode
  obtain ⟨w, inner, hnode, -, hreads, -⟩ := Source.token_of_rule hkind heval
  have htext : node.text = .ofList w := by rw [hnode]; rfl
  rwa [htext, String.toList_ofList]

/-- An expression of a file is legible. -/
theorem legible_of_contains {text : String} {file : SourceFile} (h : Source.parse text = .ok file)
    {e : Expression} (he : e.OfIntegers) (hpart : file.Contains (.expression e)) : e.Legible := by
  obtain ⟨tree, htree, hfile⟩ := Source.tree_of_parse h
  induction he with
  | integer literal =>
    obtain ⟨height, node, hnode, hrule, rfl⟩ := Reading.origin_of_contains hfile hpart
    have hreads := reads_of_within htree hnode (by rw [hrule]; rfl)
    rw [hrule] at hreads
    exact .integer hreads
  | identifier name =>
    obtain ⟨height, node, hnode, hrule, rfl⟩ := Reading.origin_of_contains hfile hpart
    have hreads := reads_of_within htree hnode (by rw [hrule]; rfl)
    rw [hrule] at hreads
    exact .identifier (Lexical.word_of_simpleIdentifier hreads)
  | parenthesized _ ih =>
    exact .parenthesized (ih (hpart.within (.child List.mem_cons_self (.self _))))
  | binary operator _ _ ihl ihr =>
    have hleft := hpart.within (.child List.mem_cons_self (.self _))
    have hright :=
      hpart.within (.child (List.mem_cons_of_mem _ List.mem_cons_self) (.self _))
    obtain ⟨height, node, -, hreading⟩ := Reading.origin_of_contains hfile hpart
    exact .binary (ihl hleft) (ihr hright) fun _ ho => Reading.rule_ne_of_isReading hreading ho

theorem reads_digits {w : List Char} (hne : w ≠ []) (hdigits : ∀ x ∈ w, x.isDigit) :
    Source.grammar.Reads .integerLiteral w := by
  have hm : ({ kind := .atomic } : Mode).kind ≠ .normal := by decide
  obtain ⟨x, u, rfl⟩ := List.exists_cons_of_ne_nil hne
  obtain ⟨hx, hu⟩ := List.forall_mem_cons.mp hdigits
  -- No digit is the mark of another base.
  have hbase (mark : Char) (hmark : ¬ mark.isDigit) :
      Evaluates Source.grammar { kind := .atomic } (.text ['0', mark]) ⟨0, x :: u⟩ none := by
    refine .noText ?_
    cases hstrip : Cursor.strip? ⟨0, x :: u⟩ ['0', mark] with
    | none => rfl
    | some d =>
      have hrest : x :: u = ['0', mark] ++ d.rest := (Cursor.strip?_passes hstrip).rest_eq
      refine absurd (hdigits mark ?_) hmark
      rw [hrest]
      exact List.mem_append_left _ (List.mem_cons_of_mem _ List.mem_cons_self)
  have hstop : Evaluates Source.grammar { kind := .atomic } (.star (Pattern.oneOf
      [.char .digit, .lit "_"])) ⟨1, u⟩ (some ([], ⟨1 + u.length, []⟩)) := by
    refine evaluates_star_chars hm (fun y hy index rest => .first (.char (hu y hy)))
      ⟨(List.append_nil u).symm, rfl⟩ ?_
    exact .second (.noChar nofun) (.noText rfl)
  have hbody : Evaluates Source.grammar { kind := .atomic } Source.Grammar.integerBody ⟨0, x :: u⟩
      (some ([], ⟨1 + u.length, []⟩)) :=
    .second (.noFirst (.second (hbase 'x' (by decide)) (hbase 'X' (by decide))))
      (.second (.noFirst (.second (hbase 'b' (by decide)) (hbase 'B' (by decide))))
        (seq_of_kind hm (.char (show CharClass.digit.accepts x from hx)) hstop))
  have hsuffix : Evaluates Source.grammar { kind := .atomic }
      (.optional (Pattern.words ["u", "U"])) ⟨1 + u.length, []⟩
      (some ([], ⟨1 + u.length, []⟩)) := .noOptional (.second (.noText rfl) (.noText rfl))
  have hend : Evaluates Source.grammar { kind := .atomic } (.absent Source.Grammar.identChar)
      ⟨1 + u.length, []⟩ (some ([], ⟨1 + u.length, []⟩)) :=
    .absent (Source.evaluates_noIdentChar (by decide) nofun)
  exact ⟨{ kind := .atomic }, ⟨0, x :: u⟩, [], ⟨1 + u.length, []⟩, hm,
    seq_of_kind hm hbody (seq_of_kind hm hsuffix hend),
    (List.append_nil _).symm, by simp [Nat.add_comm]⟩

end QuovaKotlin.Ast

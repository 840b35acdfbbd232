import QuovaKotlin.Module.Parse
import QuovaKotlin.Proofs.Attempts
import QuovaKotlin.Proofs.Reading.Faults
import QuovaKotlin.Proofs.Reading.File

/-!
# Diagnostics point into the text

A refused text is marked at the furthest attempt. The place is between two of its characters, and
the help names a rule that was tried there. Rules have names without quotes, so that no closing
symbol is ever reported as missing. An unsupported construct is marked from the opening brace of an
initializer list to its closing brace, and the list holds a dictionary entry.
-/

set_option autoImplicit false

namespace QuovaKotlin

open Peg Reading
open Peg.Grammar (Evaluates)
open Peg.ParseTree (Within)

namespace Text

theorem byteLength_eq (chars : List Char) :
    byteLength chars = (String.ofList chars).utf8ByteSize := by
  induction chars with
  | nil => rfl
  | cons c chars ih =>
    rw [String.ofList_cons, String.utf8ByteSize_append, String.utf8ByteSize_singleton, ← ih]
    rfl

/-- The bytes in front of a place are those of the text in front of it. -/
theorem byteOffset_length {text : String} {before after : List Char}
    (h : text.toList = before ++ after) :
    byteOffset text before.length = (String.ofList before).utf8ByteSize := by
  rw [byteOffset, h, List.take_left, byteLength_eq]

theorem holds_iff {part text : List Char} : holds part text ↔ part <:+: text := by
  induction text with
  | nil =>
    rw [holds, List.isEmpty_iff]
    exact List.infix_nil.symm
  | cons c text ih =>
    rw [holds, Bool.or_eq_true, List.isPrefixOf_iff_prefix, ih]
    exact List.infix_cons_iff.symm

end Text

/-- Without a quote in what was expected, no closing symbol is reported as missing. -/
theorem Problem.refusal_of_unquoted {expectation : String} (h : '\x22' ∉ expectation.toList) :
    refusal expectation = "Syntax error" := by
  have hnone {part : List Char} (hquote : '\x22' ∈ part) :
      ¬ Text.holds part expectation.toList := by
    intro hholds
    exact h ((Text.holds_iff.mp hholds).subset hquote)
  unfold refusal
  rw [if_neg (hnone (by decide)), if_neg (hnone (by decide)), if_neg (hnone (by decide))]

/-- One byte of the text is marked, behind as many characters as the furthest attempt is. It is the
start of a character or the end of the text. The help names a rule. -/
structure IsRefusalOf {ρ : Type} (g : Grammar ρ) (top : ρ) (text : String) (problem : Problem) :
    Prop where
  message_eq : problem.message = "Syntax error"
  label : ∃ t before after, g.parse top text = .error t ∧ text = before ++ after ∧
    before.length = t.furthest ∧
    problem.label? = some ⟨before.utf8ByteSize, 1, "Syntax error"⟩ ∧
    before.utf8ByteSize ≤ text.utf8ByteSize ∧
    String.Pos.Raw.IsValid text ⟨before.utf8ByteSize⟩
  help : ∃ help, problem.help? = some help ∧ help ≠ "unknown parsing error" ∧ Names g.name help

theorem isRefusalOf_rejected {ρ : Type} [DecidableEq ρ] {g : Grammar ρ} {top : ρ}
    (hends : g.Ends top) (hrules : ∀ r, r ∈ g.rules) (hquotes : ∀ r, '\x22' ∉ (g.name r).toList)
    {text : String} {t : Attempts ρ} (h : g.parse top text = .error t) :
    IsRefusalOf g top text
      (.rejected (Text.byteOffset text t.furthest) (g.expectation t)) := by
  have hmessage : Problem.refusal (g.expectation t) = "Syntax error" := by
    refine Problem.refusal_of_unquoted fun hquote => ?_
    rcases Grammar.mem_expectation hquote with hwords | ⟨r, hname⟩
    · exact absurd hwords (by decide)
    · exact hquotes r hname
  obtain ⟨hfurthest, hlisted⟩ := hends.sound_of_refused h
  have hnames := Grammar.names_expectation hrules hlisted
  have hsplit : text.toList = text.toList.take t.furthest ++ text.toList.drop t.furthest :=
    (List.take_append_drop _ _).symm
  have hlength : (text.toList.take t.furthest).length = t.furthest := by
    rw [List.length_take]
    omega
  have hoffset := Text.byteOffset_length hsplit
  rw [hlength] at hoffset
  have htext : text = .ofList (text.toList.take t.furthest) ++
      .ofList (text.toList.drop t.furthest) := by
    rw [← String.ofList_append, ← hsplit, String.ofList_toList]
  refine ⟨hmessage, ⟨t, _, _, h, htext, ?_, ?_, ?_, ?_⟩, _, rfl, hnames.ne_unknown, hnames⟩
  · rw [String.length_ofList, hlength]
  · show some (Label.mk _ (if _ then _ else 1) (Problem.refusal (g.expectation t))) = _
    rw [if_neg (Nat.lt_irrefl _), hoffset, hmessage]
  · have hsize := congrArg String.utf8ByteSize htext
    rw [String.utf8ByteSize_append] at hsize
    omega
  · exact String.Pos.Raw.isValid_iff_exists_append.mpr ⟨_, _, htext, rfl⟩

theorem not_mem_ofList {c : Char} {name : String}
    (h : ∃ chars, name = String.ofList chars ∧ c ∉ chars) : c ∉ name.toList := by
  obtain ⟨chars, rfl, h⟩ := h
  rwa [String.toList_ofList]

theorem Source.name_unquoted (r : Source.Rule) : '\x22' ∉ (Source.grammar.name r).toList := by
  apply not_mem_ofList
  cases r <;> exact ⟨_, rfl, by decide⟩

theorem Module.name_unquoted (r : Module.Rule) : '\x22' ∉ (Module.grammar.name r).toList := by
  apply not_mem_ofList
  cases r <;> exact ⟨_, rfl, by decide⟩

/-- The marked bytes are those of an initializer list in the tree, from its opening brace on. The
list holds a dictionary entry. -/
structure IsDictionaryIn (tree : Node) (text : String) (problem : Problem) : Prop where
  label : ∃ list before inside after, Within list tree ∧ list.rule = .initializerList ∧
    list.has .dictionaryEntry ∧ text = before ++ ("\x7b" ++ inside) ++ after ∧
    list.span = ⟨before.length, before.length + ("\x7b" ++ inside).length⟩ ∧
    problem.label? =
      some ⟨before.utf8ByteSize, ("\x7b" ++ inside).utf8ByteSize, problem.message⟩ ∧
    0 < ("\x7b" ++ inside).utf8ByteSize ∧
    before.utf8ByteSize + ("\x7b" ++ inside).utf8ByteSize ≤ text.utf8ByteSize

/-- An initializer list stands in the text, and starts with a brace. -/
theorem exists_list_text {text : String} {tree list : Node}
    (htree : Source.grammar.parse .quovaFile text = .ok tree) (hlist : Within list tree)
    (hrule : list.rule = .initializerList) :
    ∃ before inside after, text.toList = before ++ '\x7b' :: inside ++ after ∧
      list.span = ⟨before.length, before.length + ('\x7b' :: inside).length⟩ := by
  obtain ⟨d, ts, heval⟩ := Grammar.parse_evaluates htree
  obtain ⟨c, d, before, hbefore, hplaced⟩ :=
    heval.placed Source.grammar_kind rfl _ _ rfl tree List.mem_cons_self list hlist
  rw [hrule] at hplaced
  obtain ⟨inner, htreeOf, hbody⟩ := hplaced.of_rule Source.grammar_kind
  obtain ⟨_, _, e, -, hopen, hothers⟩ := Evaluates.of_seq hbody
  obtain ⟨-, hbrace⟩ := hopen.of_text
  obtain ⟨layout, hlayout⟩ := Grammar.between_passes _ e
  obtain ⟨others, hpasses⟩ := hothers.passes _ _ rfl
  have hinside := hbrace.trans (hlayout.trans hpasses)
  refine ⟨before, layout ++ others, d.rest, ?_, ?_⟩
  · have hrest : text.toList = before ++ c.rest := hbefore.rest_eq
    rw [hrest, hinside.rest_eq, List.append_assoc before]
    rfl
  · have hindex : c.index = before.length := by
      rw [hbefore.index_eq, Nat.zero_add]
    rw [(List.cons.inj htreeOf).1, Grammar.span_treeOf, hinside.index_eq, hindex]
    rfl

theorem label?_unsupported (construct : Unsupported) {start length : Nat} (h : 0 < length) :
    (Problem.unsupported construct ⟨start, start + length⟩).label? =
      some ⟨start, length, construct.message⟩ := by
  show some (Label.mk start (if start < start + length then start + length - start else 1) _) = _
  rw [if_pos (by omega), Nat.add_sub_cancel_left]
  rfl

theorem isDictionaryIn_unsupported {text : String} {tree : Node}
    (htree : Source.grammar.parse .quovaFile text = .ok tree) {construct : Unsupported}
    {span : Span} (hread : readFile tree = .error (.unsupported construct span)) :
    IsDictionaryIn tree text (.unsupported construct (byteRange text span)) := by
  obtain ⟨list, hlist, hrule, hhas, rfl⟩ := isDictionarySpan_of_readFile hread
  obtain ⟨before, inside, after, htext, hspan⟩ := exists_list_text htree hlist hrule
  have hstart : Text.byteOffset text before.length = (String.ofList before).utf8ByteSize :=
    Text.byteOffset_length (by rw [htext, List.append_assoc])
  have hstop : Text.byteOffset text (before.length + ('\x7b' :: inside).length) =
      (String.ofList before).utf8ByteSize + ("\x7b" ++ .ofList inside).utf8ByteSize := by
    rw [← List.length_append, Text.byteOffset_length htext, String.ofList_append,
      String.utf8ByteSize_append, String.ofList_cons]
    rfl
  have hpos : 0 < ("\x7b" ++ String.ofList inside).utf8ByteSize := by
    rw [String.utf8ByteSize_append]
    exact Nat.add_pos_left (by decide) _
  have hjoined : text = .ofList before ++ ("\x7b" ++ .ofList inside) ++ .ofList after := by
    rw [← String.ofList_toList (s := text), htext, String.ofList_append, String.ofList_append,
      String.ofList_cons]
    rfl
  refine ⟨list, .ofList before, .ofList inside, .ofList after, hlist, hrule, hhas, hjoined, ?_, ?_,
    hpos, ?_⟩
  · have hlength : ("\x7b" ++ String.ofList inside).length = ('\x7b' :: inside).length := by
      have hone : "\x7b".length = 1 := rfl
      rw [String.length_append, hone, String.length_ofList, List.length_cons, Nat.add_comm]
    rw [hspan, hlength, String.length_ofList]
  · rw [byteRange, hspan, hstart, hstop]
    exact label?_unsupported construct hpos
  · have hsize := congrArg String.utf8ByteSize hjoined
    rw [String.utf8ByteSize_append, String.utf8ByteSize_append] at hsize
    omega

namespace Source

theorem parse_error_cases {text : String} {problem : Problem} (h : parse text = .error problem) :
    (∃ t, grammar.parse .quovaFile text = .error t ∧
      problem = .rejected (Text.byteOffset text t.furthest) (grammar.expectation t)) ∨
    ∃ tree error, grammar.parse .quovaFile text = .ok tree ∧ readFile tree = .error error ∧
      problem = error.problem text := by
  cases hparse : grammar.parse .quovaFile text with
  | error t =>
    refine .inl ⟨t, rfl, ?_⟩
    simp only [parse, parseTree, hparse] at h
    exact (Except.error.inj h).symm
  | ok tree =>
    rw [parse_of_tree hparse] at h
    cases hread : readFile tree with
    | error error =>
      rw [hread] at h
      exact .inr ⟨tree, error, rfl, hread, (Except.error.inj h).symm⟩
    | ok file =>
      rw [hread] at h
      cases h

end Source

namespace Module

theorem parse_error_cases {text : String} {problem : Problem} (h : parse text = .error problem) :
    (∃ t, grammar.parse .moduleFile text = .error t ∧
      problem = .rejected (Text.byteOffset text t.furthest) (grammar.expectation t)) ∨
    ∃ tree error, readDescription tree = .error error ∧ problem = error.problem text := by
  cases hparse : grammar.parse .moduleFile text with
  | error t =>
    refine .inl ⟨t, rfl, ?_⟩
    simp only [parse, parseTree, hparse] at h
    exact (Except.error.inj h).symm
  | ok tree =>
    simp only [parse, parseTree, hparse] at h
    replace h : (readDescription tree).mapError (·.problem text) = .error problem := h
    cases hread : readDescription tree with
    | error error =>
      rw [hread] at h
      exact .inr ⟨tree, error, hread, (Except.error.inj h).symm⟩
    | ok description =>
      rw [hread] at h
      cases h

end Module

/-- What a refused text or an unsupported construct is reported with points into the text. -/
theorem diagnostics_point_into_text (text : String) :
    (∀ problem, Source.parse text = .error problem → problem.kind = .parse →
      IsRefusalOf Source.grammar .quovaFile text problem) ∧
    (∀ problem, Module.parse text = .error problem → problem.kind = .parse →
      IsRefusalOf Module.grammar .moduleFile text problem) ∧
    (∀ problem, Source.parse text = .error problem → problem.kind = .unsupported →
      ∃ tree, Source.grammar.parse .quovaFile text = .ok tree ∧
        IsDictionaryIn tree text problem) ∧
    ∀ problem, Module.parse text = .error problem → problem.kind ≠ .unsupported := by
  refine ⟨fun problem h hkind => ?_, fun problem h hkind => ?_, fun problem h hkind => ?_,
    fun problem h hkind => ?_⟩
  · rcases Source.parse_error_cases h with ⟨t, ht, rfl⟩ | ⟨tree, error, -, -, rfl⟩
    · exact isRefusalOf_rejected Source.grammar_ends Source.mem_rules Source.name_unquoted ht
    · cases error <;> cases hkind
  · rcases Module.parse_error_cases h with ⟨t, ht, rfl⟩ | ⟨tree, error, -, rfl⟩
    · exact isRefusalOf_rejected Module.grammar_ends Module.mem_rules Module.name_unquoted ht
    · cases error <;> cases hkind
  · rcases Source.parse_error_cases h with ⟨t, ht, rfl⟩ | ⟨tree, error, htree, hread, rfl⟩
    · cases hkind
    · cases error with
      | missing message span => cases hkind
      | unsupported construct span =>
        exact ⟨tree, htree, isDictionaryIn_unsupported htree hread⟩
  · rcases Module.parse_error_cases h with ⟨t, ht, rfl⟩ | ⟨tree, error, hread, rfl⟩
    · cases hkind
    · cases error with
      | missing message span => cases hkind
      | unsupported construct span =>
        exact Module.readDescription_ne_unsupported tree construct span hread

theorem eq_error_of_problem {α : Type} {result : Except Problem α} {problem : Problem}
    (h : (match result with | .error other => some other | .ok _ => none) = some problem) :
    result = .error problem := by
  cases result with
  | error other => rw [Option.some.inj h]
  | ok value => cases h

/-- An accented letter where a name is expected, twice, and one in front of a dictionary. -/
theorem accents_pointed_at :
    (Source.parse "var é = 1;" = .error (.rejected 4 "expected simple_identifier") ∧
      IsRefusalOf Source.grammar .quovaFile "var é = 1;"
        (.rejected 4 "expected simple_identifier")) ∧
    (Module.parse "project é" = .error (.rejected 8 "expected name") ∧
      IsRefusalOf Module.grammar .moduleFile "project é" (.rejected 8 "expected name")) ∧
    Source.parse "var x = \"é\" + new T\x7ba: b\x7d;" =
      .error (.unsupported .constructorDictionary ⟨20, 26⟩) ∧
    ∃ tree, Source.grammar.parse .quovaFile "var x = \"é\" + new T\x7ba: b\x7d;" = .ok tree ∧
      IsDictionaryIn tree "var x = \"é\" + new T\x7ba: b\x7d;"
        (.unsupported .constructorDictionary ⟨20, 26⟩) := by
  have hsource : Source.parse "var é = 1;" = .error (.rejected 4 "expected simple_identifier") :=
    eq_error_of_problem (by decide +kernel)
  have hmodule : Module.parse "project é" = .error (.rejected 8 "expected name") :=
    eq_error_of_problem (by decide +kernel)
  have hdictionary : Source.parse "var x = \"é\" + new T\x7ba: b\x7d;" =
      .error (.unsupported .constructorDictionary ⟨20, 26⟩) :=
    eq_error_of_problem (by decide +kernel)
  exact ⟨⟨hsource, (diagnostics_point_into_text _).1 _ hsource rfl⟩,
    ⟨hmodule, (diagnostics_point_into_text _).2.1 _ hmodule rfl⟩,
    hdictionary, (diagnostics_point_into_text _).2.2.1 _ hdictionary rfl⟩

end QuovaKotlin

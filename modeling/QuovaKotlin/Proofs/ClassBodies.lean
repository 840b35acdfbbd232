import QuovaKotlin.Proofs.Lookahead
import QuovaKotlin.Proofs.Reading.File

/-!
# Class bodies behind a delegate

The delegate behind `by` is an expression, and a block behind an expression is its last argument.
A class body whose members are all declarations is such a block as well, so it is taken from the
class. A constructor or an initializer in the body keeps it from being read so.
-/

set_option autoImplicit false

namespace QuovaKotlin.Source

open Ast Peg Peg.Grammar Reading Lexical

/-- What a statement may be if it is neither labeled nor a declaration. -/
def plainStatement : Pattern Rule :=
  match grammar.body .statement with
  | .choice _ (.choice _ p) => p
  | p => p

/-- What follows the statements of a lambda. -/
def lambdaEnd : Pattern Rule :=
  .seq (.optional (.rule .expression)) (.text ['\x7d'])

def visibilityWords : List (List Char) :=
  (wordsOf (grammar.body .visibilityModifier)).getD []

/-- The words in front of a constructor, without its annotations. -/
def constructorFronts : List (List Token) :=
  [.word "constructor"] ::
    visibilityWords.map fun w => [.word (.ofList w), .word "constructor"]

/-- The words in front of an initializer. -/
def initFronts : List (List Token) :=
  [[.word "init"], [.word "static", .word "init"]]

/-- What follows the annotations of a declaration. -/
def bareDeclaration (r : Rule) : Pattern Rule :=
  match grammar.body r with
  | .seq _ p => p
  | p => p

/-- What fails in front of a constructor, of any member that is no declaration, of an initializer, of
a label and of the end of a body, in this order. All of it is decided at once, since every decision
evaluates the words of the grammar anew. -/
theorem look_members :
    (∀ front ∈ constructorFronts,
      ∀ r ∈ [Rule.typeDeclaration, .functionDeclaration, .propertyDeclaration],
        look (bareDeclaration r) front = .fails) ∧
    (∀ front ∈ [.mark '@'] :: constructorFronts ++ initFronts,
      ∀ p ∈ [.rule .labeledStatement, plainStatement, .rule .expression, .text ['\x7d']],
        look p front = .fails) ∧
    (∀ front ∈ initFronts, look (.rule .declaration) front = .fails) ∧
    look (.rule .declaration) [.name, .mark '@'] = .fails ∧
    ∀ p ∈ [.rule .statement, .rule .expression], look p [.mark '\x7d'] = .fails := by
  decide +kernel

section

variable {c d e : Cursor} {ts us : List Node} {t : Node} {front : List Token}

theorem node_of_rule {r : Rule} (hkind : grammar.kind r = .normal)
    (h : Evaluates grammar {} (.rule r) c (some (ts, d))) :
    ∃ inner, ts = [.node r ⟨c.index, d.index⟩ inner] ∧
      Evaluates grammar {} (grammar.body r) c (some (inner, d)) := by
  obtain ⟨inner, hts, h⟩ := h.of_rule grammar_kind
  rw [modes, hkind] at h
  rw [treeOf, hkind] at hts
  exact ⟨inner, hts, h⟩

/-- Annotations start with a mark. -/
theorem front_of_annotations (hc : c.skipLayout = c)
    (h : Evaluates grammar {} (.star (.rule .annotationUse)) c (some (us, e))) :
    e = c ∨ AtTokens [.mark '@'] c := by
  rcases h.of_star with ⟨-, -, rfl⟩ | ⟨_, _, d, -, hone, -⟩
  · exact .inl rfl
  · right
    obtain ⟨inner, -, hbody⟩ := node_of_rule rfl hone
    obtain ⟨_, _, _, -, hmark, -⟩ := hbody.of_seq
    exact ⟨hc, _, hmark.of_text.2.rest_eq⟩

theorem statement_fails (hfront : front ∈ [.mark '@'] :: constructorFronts ++ initFronts)
    (hc : AtTokens front c) (hdeclaration : Evaluates grammar {} (.rule .declaration) c none) :
    Evaluates grammar {} (.rule .statement) c none := by
  have hparts := look_members.2.1 front hfront
  have hlabeled := fails_of_look (hparts (.rule .labeledStatement) (by simp)) hc
  have hplain := fails_of_look (hparts plainStatement (by simp)) hc
  exact .noRule (.second hlabeled (.second hdeclaration hplain))

theorem lambdaEnd_fails (hfront : front ∈ [.mark '@'] :: constructorFronts ++ initFronts)
    (hc : AtTokens front c) : Evaluates grammar {} lambdaEnd c none := by
  have hparts := look_members.2.1 front hfront
  have hexpression := fails_of_look (hparts (.rule .expression) (by simp)) hc
  have hclosing := fails_of_look (hparts (.text ['\x7d']) (by simp)) hc
  refine .noSecond (.noOptional hexpression) ?_
  rw [between_default, hc.1]
  exact hclosing

/-- No declaration is a constructor: behind the annotations all of them go on otherwise. -/
theorem declaration_fails (hfront : front ∈ constructorFronts)
    (hannotations : Evaluates grammar {} (.star (.rule .annotationUse)) c (some (us, e)))
    (he : AtTokens front e.skipLayout) :
    Evaluates grammar {} (.rule .declaration) c none := by
  have hbare := fun r hr => fails_of_look (look_members.1 front hfront r hr) he
  have htype : Evaluates grammar {} (.rule .typeDeclaration) c none :=
    .noRule (.noSecond hannotations (hbare .typeDeclaration (by simp)))
  have hfunction : Evaluates grammar {} (.rule .functionDeclaration) c none :=
    .noRule (.noSecond hannotations (hbare .functionDeclaration (by simp)))
  have hproperty : Evaluates grammar {} (.rule .propertyDeclaration) c none :=
    .noRule (.noSecond hannotations (hbare .propertyDeclaration (by simp)))
  exact .noRule (.second htype (.second hfunction hproperty))

/-- The words in front of a constructor, behind its annotations. -/
theorem front_of_constructor
    (h : Evaluates grammar {} (.rule .constructorDeclaration) c (some (ts, d))) :
    ∃ us e, Evaluates grammar {} (.star (.rule .annotationUse)) c (some (us, e)) ∧
      ∃ front ∈ constructorFronts, AtTokens front e.skipLayout := by
  obtain ⟨inner, -, hbody⟩ := node_of_rule rfl h
  obtain ⟨us, _, e, -, hannotations, h₁⟩ := hbody.of_seq
  refine ⟨us, e, hannotations, ?_⟩
  obtain ⟨_, _, d₁, -, hvisibility, h₂⟩ := h₁.of_seq
  obtain ⟨_, _, d₂, -, hkeyword, -⟩ := h₂.of_seq
  obtain ⟨w, hw, hpasses, hoff⟩ :=
    word_of_rule ["constructor".toList] (by decide) rfl hkeyword
  obtain rfl := List.mem_singleton.mp hw
  have hahead : Ahead [.word "constructor"] d₁.skipLayout := ⟨d₂, hpasses, hoff, trivial⟩
  rcases hvisibility.of_optional with hsome | ⟨-, -, rfl⟩
  · obtain ⟨v, hv, hpasses', hoff'⟩ :=
      word_of_rule visibilityWords rfl rfl hsome
    refine ⟨[.word (.ofList v), .word "constructor"],
      List.mem_cons_of_mem _ (List.mem_map_of_mem hv), e.skipLayout_skipLayout, d₁, ?_, hoff',
      hahead⟩
    rw [String.toList_ofList]
    exact hpasses'
  · refine ⟨[.word "constructor"], List.mem_cons_self, e.skipLayout_skipLayout, ?_⟩
    rwa [between_default, e.skipLayout_skipLayout] at hahead

/-- The words in front of an initializer. -/
theorem front_of_initBlock (hc : c.skipLayout = c)
    (h : Evaluates grammar {} (.rule .initBlock) c (some (ts, d))) :
    ∃ front ∈ initFronts, AtTokens front c := by
  obtain ⟨inner, -, hbody⟩ := node_of_rule rfl h
  obtain ⟨_, _, d₁, -, hstatic, h₁⟩ := hbody.of_seq
  obtain ⟨_, _, d₂, -, hkeyword, -⟩ := h₁.of_seq
  obtain ⟨w, hw, hpasses, hoff⟩ := word_of_rule ["init".toList] (by decide) rfl hkeyword
  obtain rfl := List.mem_singleton.mp hw
  have hahead : Ahead [.word "init"] d₁.skipLayout := ⟨d₂, hpasses, hoff, trivial⟩
  rcases hstatic.of_optional with hsome | ⟨-, -, rfl⟩
  · obtain ⟨v, hv, hpasses', hoff'⟩ :=
      word_of_rule ["static".toList] (by decide) rfl hsome
    obtain rfl := List.mem_singleton.mp hv
    exact ⟨[.word "static", .word "init"], by decide, hc, d₁, hpasses', hoff', hahead⟩
  · exact ⟨[.word "init"], by decide, hc, by rwa [hc] at hahead⟩

theorem labeled_fails (hc : c.skipLayout = c)
    (h : Evaluates grammar {} (.rule .declaration) c (some (ts, d))) :
    Evaluates grammar {} (.rule .labeledStatement) c none := by
  obtain ⟨result, hname⟩ := grammar_tame.total (p := .rule .simpleIdentifier) rfl {} c
  cases result with
  | none => exact .noRule (.noFirst hname)
  | some result =>
    obtain ⟨us, e⟩ := result
    cases hstrip : e.skipLayout.strip? ['@'] with
    | none => exact .noRule (.noSecond hname (.noFirst (.noText hstrip)))
    | some e' =>
      obtain ⟨inner, rfl, -⟩ := hname.of_rule grammar_kind
      obtain ⟨u, hu, hpasses, hoff⟩ := name_of_evaluates hname
      have hfront : AtTokens [.name, .mark '@'] c :=
        ⟨hc, u, e, hu, hpasses, hoff, _, (Cursor.strip?_passes hstrip).rest_eq⟩
      obtain ⟨-, -, -, hlabel, -⟩ := look_members
      cases h.unique (fails_of_look hlabel hfront)

/-- A member is a declaration, and then a statement just as well, or neither a statement nor the end
of a lambda can stand in its place. -/
theorem member_cases (hc : c.skipLayout = c)
    (h : Evaluates grammar {} Grammar.classMember c (some (ts, d))) :
    ∃ t, ts = [t] ∧
      (t.rule = .declaration ∧ (∃ us, Evaluates grammar {} (.rule .statement) c (some (us, d))) ∨
        t.rule ≠ .declaration ∧ Evaluates grammar {} (.rule .statement) c none ∧
          Evaluates grammar {} lambdaEnd c none) := by
  rcases h.of_choice with hconstructor | ⟨-, h⟩
  · obtain ⟨inner, rfl, -⟩ := hconstructor.of_rule grammar_kind
    refine ⟨_, rfl, .inr ⟨by rw [treeOf_rule]; decide, ?_⟩⟩
    obtain ⟨us, e, hannotations, front, hfront, he⟩ := front_of_constructor hconstructor
    have hdeclaration := declaration_fails hfront hannotations he
    rcases front_of_annotations hc hannotations with rfl | hmark
    · rw [hc] at he
      have hmem : front ∈ [.mark '@'] :: constructorFronts ++ initFronts := by simp [hfront]
      exact ⟨statement_fails hmem he hdeclaration, lambdaEnd_fails hmem he⟩
    · exact ⟨statement_fails (by simp) hmark hdeclaration, lambdaEnd_fails (by simp) hmark⟩
  · rcases h.of_choice with hinit | ⟨-, hdeclaration⟩
    · obtain ⟨inner, rfl, -⟩ := hinit.of_rule grammar_kind
      refine ⟨_, rfl, .inr ⟨by rw [treeOf_rule]; decide, ?_⟩⟩
      obtain ⟨front, hfront, hfront'⟩ := front_of_initBlock hc hinit
      have hmem : front ∈ [.mark '@'] :: constructorFronts ++ initFronts := by simp [hfront]
      have hdeclaration := fails_of_look (look_members.2.2.1 front hfront) hfront'
      exact ⟨statement_fails hmem hfront' hdeclaration, lambdaEnd_fails hmem hfront'⟩
    · obtain ⟨inner, rfl, -⟩ := hdeclaration.of_rule grammar_kind
      refine ⟨_, rfl, .inl ⟨treeOf_rule _ _ _ _ _, ?_⟩⟩
      exact ⟨_, .rule (.second (labeled_fails hc hdeclaration) (.first hdeclaration))⟩

/-- The statements of a lambda go through the members of a class up to the first that is no
declaration, and a lambda cannot end there. -/
theorem statements_of_members
    (h : Evaluates grammar {} (.more Grammar.classMember) c (some (ts, d)))
    (hend : Evaluates grammar {} (.rule .statement) d.skipLayout none) :
    (∀ t ∈ ts, t.rule = .declaration) ∧
        (∃ us, Evaluates grammar {} (.more (.rule .statement)) c (some (us, d))) ∨
      (∃ t ∈ ts, t.rule ≠ .declaration) ∧
        ∃ us e, Evaluates grammar {} (.more (.rule .statement)) c (some (us, e)) ∧
          Evaluates grammar {} lambdaEnd e.skipLayout none := by
  revert hend
  refine h.more_induction (motive := fun c ts d =>
    Evaluates grammar {} (.rule .statement) d.skipLayout none →
      (∀ t ∈ ts, t.rule = .declaration) ∧
          (∃ us, Evaluates grammar {} (.more (.rule .statement)) c (some (us, d))) ∨
        (∃ t ∈ ts, t.rule ≠ .declaration) ∧
          ∃ us e, Evaluates grammar {} (.more (.rule .statement)) c (some (us, e)) ∧
            Evaluates grammar {} lambdaEnd e.skipLayout none) ?_ ?_
  · intro c _ hend
    exact .inl ⟨nofun, [], .noMore hend⟩
  · intro c us e vs d hround ih hend
    obtain ⟨t, rfl, hmember⟩ := member_cases c.skipLayout_skipLayout hround
    rcases hmember with ⟨hrule, ts, hstatement⟩ | ⟨hrule, hnone, hlambda⟩
    · rcases ih hend with ⟨hall, us, hrest⟩ | ⟨⟨t', hmem, hrule'⟩, us, e', hrest, hlambda⟩
      · refine .inl ⟨?_, _, .more hstatement hrest⟩
        intro t' ht'
        rcases List.mem_cons.mp ht' with rfl | ht'
        · exact hrule
        · exact hall t' ht'
      · exact .inr ⟨⟨t', List.mem_cons_of_mem t hmem, hrule'⟩, _, e', .more hstatement hrest,
          hlambda⟩
    · exact .inr ⟨⟨t, List.mem_cons_self, hrule⟩, [], c, .noMore hnone, hlambda⟩

/-- A class body is the body of a lambda exactly if its members are declarations. -/
theorem lambda_of_classBody
    (h : Evaluates grammar {} (.rule .classBody) c (some ([t], d))) :
    (∀ member ∈ t.children, member.rule = .declaration) ∧
        (∃ us, Evaluates grammar {} (.rule .lambdaBody) c (some (us, d))) ∨
      (∃ member ∈ t.children, member.rule ≠ .declaration) ∧
        Evaluates grammar {} (.rule .lambdaBody) c none := by
  obtain ⟨inner, hnode, hbody⟩ := node_of_rule rfl h
  obtain rfl := (List.cons.inj hnode).1
  obtain ⟨_, _, c₁, rfl, hopening, h₁⟩ := hbody.of_seq
  obtain ⟨ts, _, c₂, rfl, hmembers, hclosing⟩ := h₁.of_seq
  obtain ⟨rfl, -⟩ := hopening.of_text
  obtain ⟨rfl, hbrace⟩ := hclosing.of_text
  have hsettled : between {} (between {} c₁) = between {} c₁ := c₁.skipLayout_skipLayout
  have hend : AtTokens [.mark '\x7d'] c₂.skipLayout :=
    ⟨c₂.skipLayout_skipLayout, _, hbrace.rest_eq⟩
  obtain ⟨-, -, -, -, hlook⟩ := look_members
  have hstatement := fails_of_look (hlook (.rule .statement) (by simp)) hend
  have hexpression := fails_of_look (hlook (.rule .expression) (by simp)) hend
  rw [evaluates_star_iff hsettled] at hmembers
  show (∀ member ∈ [] ++ (ts ++ []), member.rule = .declaration) ∧ _ ∨
    (∃ member ∈ [] ++ (ts ++ []), member.rule ≠ .declaration) ∧ _
  rw [List.nil_append, List.append_nil]
  rcases statements_of_members hmembers hstatement with
    ⟨hall, us, hstatements⟩ | ⟨hsome, us, e, hstatements, hlambda⟩
  · left
    have hlambda : Evaluates grammar {} lambdaEnd c₂.skipLayout (some ([] ++ [], d)) := by
      refine .seq (.noOptional hexpression) ?_
      rw [between_default, c₂.skipLayout_skipLayout]
      exact hclosing
    exact ⟨hall, _, .rule (.seq hopening
      (.seq ((evaluates_star_iff hsettled).mpr hstatements) hlambda))⟩
  · right
    exact ⟨hsome, .noRule (.noSecond hopening
      (.noSecond ((evaluates_star_iff hsettled).mpr hstatements) hlambda))⟩

end

end QuovaKotlin.Source

namespace QuovaKotlin.Ast

/-- A member that is neither a constructor nor an initializer. -/
def Member.isDeclaration : Member → Bool
  | .declaration _ => true
  | _ => false

end QuovaKotlin.Ast

namespace QuovaKotlin.Reading

open Ast

/-- Declarations are read as declarations, and no other member is. -/
theorem isDeclaration_of_readMember {parts : Readers} {node : Node} {r : Read Member} {m : Member}
    (h : readMember? parts node = some r) (hm : r = .ok m) :
    m.isDeclaration = decide (node.rule = .declaration) := by
  unfold readMember? at h
  split at h
  · next hrule =>
    cases h
    obtain ⟨_, -, hm⟩ := bind_eq_ok hm
    obtain ⟨_, -, hm⟩ := bind_eq_ok hm
    obtain ⟨_, -, hm⟩ := bind_eq_ok hm
    obtain ⟨_, -, hm⟩ := bind_eq_ok hm
    obtain ⟨_, -, hm⟩ := bind_eq_ok hm
    cases hm
    rw [hrule]
    rfl
  · next hrule =>
    cases h
    obtain ⟨_, -, hm⟩ := bind_eq_ok hm
    cases hm
    rw [hrule]
    rfl
  · next hrule =>
    cases h
    obtain ⟨_, -, rfl⟩ := map_eq_ok hm
    rw [hrule]
    rfl
  · cases h

/-- The members of a body are declarations as far as their nodes are. -/
theorem isDeclaration_of_readMembers {parts : Readers} {node : Node} {members : List Member}
    (h : readMembers parts node = .ok members)
    (hchildren : ∀ child ∈ node.children, (readMember? parts child).isSome) :
    members.map Member.isDeclaration =
      node.children.map fun child => decide (child.rule = .declaration) := by
  unfold readMembers at h
  generalize node.children = children at h hchildren
  induction children generalizing members with
  | nil =>
    cases h
    rfl
  | cons child children ih =>
    obtain ⟨r, hr⟩ := Option.isSome_iff_exists.mp (hchildren child List.mem_cons_self)
    rw [List.filterMap_cons_some hr, List.mapM_cons] at h
    obtain ⟨m, hm, h⟩ := bind_eq_ok h
    obtain ⟨ms, hms, h⟩ := bind_eq_ok h
    cases h
    rw [List.map_cons, List.map_cons, isDeclaration_of_readMember hr hm,
      ih hms fun t ht => hchildren t (List.mem_cons_of_mem child ht)]

end QuovaKotlin.Reading

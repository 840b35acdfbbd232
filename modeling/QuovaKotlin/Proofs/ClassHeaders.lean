import QuovaKotlin.Proofs.ClassBodies
import QuovaKotlin.Proofs.Reading.FileAlike

/-!
# The headers of classes

A class with one supertype is followed through the grammar, without a delegate and with one. The
delegate is a name alone or the name with a call, and what stands behind the header is matched in
the same way wherever it starts.
-/

set_option autoImplicit false

namespace QuovaKotlin.Source

open Ast Peg Peg.Grammar Reading Lexical

/-- A type name: names with dots between them. -/
def IsTypeName (u : List Char) : Prop :=
  ∃ (first : List Char) (others : List (List Char)), isName first ∧
    (∀ name ∈ others, isName name) ∧ u = first ++ others.flatMap fun name => '.' :: name

/-- `u` stands at `c`; behind one blank follows `d`, where no layout starts. -/
def Spaced (u : List Char) (c d : Cursor) : Prop :=
  ∃ e, c.Passes u e ∧ e.Passes [' '] d ∧ d.skipLayout = d

section

variable {c d e : Cursor} {u w : List Char} {ts us : List Node} {p q : Pattern Rule} {m : Mode}

theorem offWord_of_blank (h : e.Passes [' '] d) : OffWord e.rest := by
  intro x hx
  rw [h.rest_eq] at hx
  obtain rfl : ' ' = x := by simpa using hx
  decide

/-- A part that is left out where no layout starts. -/
theorem seq_skip (hc : c.skipLayout = c) (hp : Evaluates grammar {} p c (some ([], c)))
    (hq : Evaluates grammar {} q c (some (us, d))) :
    Evaluates grammar {} (.seq p q) c (some (us, d)) :=
  Evaluates.step hp hc hq

theorem of_seq_skip (h : Evaluates grammar {} (.seq p q) c (some (us, d))) (hc : c.skipLayout = c)
    (hp : Evaluates grammar {} p c (some ([], c))) : Evaluates grammar {} q c (some (us, d)) := by
  obtain ⟨ts, vs, e, rfl, hp', hq⟩ := h.of_seq
  cases hp'.unique hp
  rwa [between_default, hc] at hq

theorem token_at {r : Rule} (hkind : grammar.kind r = .atomic) (hpasses : c.Passes u d)
    (h : Evaluates grammar {} (.rule r) c (some (ts, d))) :
    Evaluates grammar {} (.rule r) c
      (some ([.token r ⟨c.index, d.index⟩ (.ofList u)], d)) := by
  obtain ⟨inner, rfl, -⟩ := h.of_rule grammar_kind
  rwa [treeOf, hkind, hpasses.textTo_eq] at h

/-- A pattern that cannot fail matches everywhere. -/
theorem total_some (hp : p.isTame isSolid rank 100)
    (hnever : ∀ c, ¬ Evaluates grammar {} p c none) (c : Cursor) :
    ∃ ts d, Evaluates grammar {} p c (some (ts, d)) := by
  obtain ⟨result, h⟩ := grammar_tame.total hp {} c
  cases result with
  | none => exact absurd h (hnever c)
  | some result => exact ⟨result.1, result.2, h⟩

theorem Spaced.settled (h : Spaced u c d) : d.skipLayout = d := by
  obtain ⟨e, -, -, hd⟩ := h
  exact hd

theorem front_of_name (hname : isName u) (h : Spaced u c d) : AtTokens [.name] c := by
  obtain ⟨e, hpasses, hblank, -⟩ := h
  refine ⟨?_, u, e, hname, hpasses, offWord_of_blank hblank, trivial⟩
  obtain ⟨x, rest, rfl, hx, -⟩ := isName_iff.mp hname
  exact skipLayout_of_passes hpasses (not_layout_of_isWordChar (isWordChar_of_isWordStart hx))

theorem front_of_word {text : String} (hc : c.skipLayout = c) (h : Spaced text.toList c d) :
    AtTokens [.word text] c := by
  obtain ⟨e, hpasses, hblank, -⟩ := h
  exact ⟨hc, e, hpasses, offWord_of_blank hblank, trivial⟩

theorem word_at {r : Rule} (hws : wordsOf (grammar.body r) = some [u])
    (hkind : grammar.kind r = .atomic) (h : Spaced u c d) :
    ∃ e, e.skipLayout = d ∧
      Evaluates grammar {} (.rule r) c (some ([.token r ⟨c.index, e.index⟩ (.ofList u)], e)) := by
  obtain ⟨e, hpasses, hblank, hd⟩ := h
  have hword := evaluates_word hws (List.pairwise_singleton _ _)
    (modes_atomic (g := grammar) (m := {}) hkind) List.mem_cons_self hpasses
    (offWord_of_blank hblank)
  exact ⟨e, skipLayout_of_blank hblank hd, token_at hkind hpasses (.rule hword)⟩

theorem name_at (hname : isName u) (h : Spaced u c d) :
    ∃ e, e.skipLayout = d ∧
      Evaluates grammar {} (.rule .simpleIdentifier) c
        (some ([.token .simpleIdentifier ⟨c.index, e.index⟩ (.ofList u)], e)) := by
  obtain ⟨e, hpasses, hblank, hd⟩ := h
  obtain ⟨ts, heval⟩ := evaluates_name (m := {}) hname hpasses (offWord_of_blank hblank)
  exact ⟨e, skipLayout_of_blank hblank hd, token_at rfl hpasses heval⟩

/-- Behind a name of a type name no further character of a word follows. -/
theorem offWord_of_dotted {names : List (List Char)} (hoff : OffWord d.rest)
    (hpasses : c.Passes (names.flatMap fun name => '.' :: name) d) : OffWord c.rest := by
  rw [hpasses.rest_eq]
  cases names with
  | nil => exact hoff
  | cons name names =>
    intro x hx
    obtain rfl : '.' = x := Option.some.inj hx
    decide

/-- The names of a type name behind the first, each with its dot. -/
theorem evaluates_dotted {names : List (List Char)} (hm : m.kind ≠ .normal)
    (hnames : ∀ name ∈ names, isName name)
    (hpasses : c.Passes (names.flatMap fun name => '.' :: name) d) (hoff : OffWord d.rest)
    (hdot : d.strip? ['.'] = none) :
    ∃ ts, Evaluates grammar m (.more (.seq (.text ['.']) (.rule .simpleIdentifier))) c
      (some (ts, d)) := by
  induction names generalizing c with
  | nil =>
    obtain rfl : c = d := Option.some.inj (strip?_of_passes hpasses)
    refine ⟨[], .noMore ?_⟩
    rw [between_of_kind hm]
    exact .noFirst (.noText hdot)
  | cons name names ih =>
    obtain ⟨c₂, hfront, hrest⟩ := passes_split (u := '.' :: name) hpasses
    obtain ⟨c₁, hmark, hname⟩ := passes_split (u := ['.']) hfront
    obtain ⟨us, hmore⟩ := ih (fun other hother => hnames other (List.mem_cons_of_mem name hother))
      hrest
    obtain ⟨ts, hone⟩ := evaluates_name (m := m) (hnames name List.mem_cons_self) hname
      (offWord_of_dotted hoff hrest)
    have hround := seq_of_kind hm (.text (strip?_of_passes hmark)) hone
    rw [← between_of_kind hm c] at hround
    exact ⟨_, .more hround hmore⟩

theorem typeName_at (htype : IsTypeName u) (h : Spaced u c d) :
    ∃ e, e.skipLayout = d ∧
      Evaluates grammar {} (.rule .identifier) c
        (some ([.token .identifier ⟨c.index, e.index⟩ (.ofList u)], e)) := by
  obtain ⟨e, hpasses, hblank, hd⟩ := h
  obtain ⟨first, others, hfirst, hothers, rfl⟩ := htype
  obtain ⟨c₁, hname, hrest⟩ := passes_split hpasses
  have hoff := offWord_of_blank hblank
  have hm : (grammar.modes {} .identifier).2.kind ≠ .normal := modes_atomic rfl
  have hdot : e.strip? ['.'] = none := strip?_of_head hblank.rest_eq (by decide)
  obtain ⟨ts, hone⟩ := evaluates_name (m := (grammar.modes {} .identifier).2) hfirst hname
    (offWord_of_dotted hoff hrest)
  obtain ⟨us, hmore⟩ := evaluates_dotted hm hothers hrest hoff hdot
  have hbody := seq_of_kind hm hone ((evaluates_star_iff (between_of_kind hm _)).mpr hmore)
  exact ⟨e, skipLayout_of_blank hblank hd, token_at rfl hpasses (.rule hbody)⟩

/-- What fails at the words and marks of a header: at `class`, `:`, `by`, at the brace behind it and
at the name of a delegate, in this order. -/
theorem look_header :
    (∀ p ∈ [.rule .shebangLine, .rule .packageHeader, .rule .importHeader, .rule .annotationUse,
        .rule .visibilityModifier,
        Pattern.oneOf [.rule .inheritanceModifier, .rule .kwSealed, .rule .kwInner]],
      look p [.word "class"] = .fails) ∧
    (∀ p ∈ [.rule .variantTypeParameters, .rule .valueParameters],
      look p [.mark ':'] = .fails) ∧
    (∀ p ∈ [.rule .typeArguments, .rule .valueArguments], look p [.word "by"] = .fails) ∧
    (∀ p ∈ [.rule .typeArguments, .rule .valueArguments, .rule .kwBy, .rule .declaration,
        .rule .postfixToken, .rule .indexingSuffix, .rule .callSuffix, .rule .castOperator,
        .rule .forSuffix, Grammar.infixPart, .text [','], .text [';']],
      look p [.mark '\x7b'] = .fails) ∧
    ∀ p ∈ [Grammar.prefixPart, .rule .literal, .rule .constructorInvocation,
        .rule .switchExpression, .rule .whenExpression, .text ['(']],
      look p [.name] = .fails := by
  decide +kernel

def userTypeNode (s t : Span) (type : String) : Node :=
  .node .userType s [.token .identifier t type]

theorem userType_at {front : List Token} (htype : IsTypeName u) (h : Spaced u c d)
    (hfront : AtTokens front d) (hlook : look (.rule .typeArguments) front = .fails) :
    ∃ s t, Evaluates grammar {} (.rule .userType) c
      (some ([userTypeNode s t (.ofList u)], d)) := by
  obtain ⟨e, he, htoken⟩ := typeName_at htype h
  exact ⟨_, _, .node rfl (.step htoken he (.noOptional (fails_of_look hlook hfront)))⟩

/-- A supertype with nothing behind it. -/
theorem bareSupertype_at (htype : IsTypeName u) (h : Spaced u c d)
    (hd : AtTokens [.mark '\x7b'] d) :
    ∃ s₁ s₂ s₃, Evaluates grammar {} (.rule .supertype) c
      (some ([.node .supertype s₁ [userTypeNode s₂ s₃ (.ofList u)]], d)) := by
  obtain ⟨-, -, -, hlook, -⟩ := look_header
  obtain ⟨s₂, s₃, huser⟩ := userType_at htype h hd (hlook (.rule .typeArguments) (by simp))
  have harguments := fails_of_look (hlook (.rule .valueArguments) (by simp)) hd
  have hby := fails_of_look (hlook (.rule .kwBy) (by simp)) hd
  exact ⟨_, s₂, s₃, .node rfl
    (.step huser hd.1 (.noOptional (.second harguments (.noFirst hby))))⟩

/-- A supertype with a delegate. -/
theorem delegatedSupertype_at {d₁ d₂ d₃ : Cursor} {delegate : Node} (htype : IsTypeName u)
    (h : Spaced u c d₁) (hby : Spaced "by".toList d₁ d₂)
    (hexpression : Evaluates grammar {} (.rule .expression) d₂ (some ([delegate], d₃))) :
    ∃ s₁ s₂ s₃ s₄, Evaluates grammar {} (.rule .supertype) c
      (some ([.node .supertype s₁
        [userTypeNode s₂ s₃ (.ofList u), .token .kwBy s₄ "by", delegate]], d₃)) := by
  obtain ⟨e, he, hkeyword⟩ := word_at (r := .kwBy) (by decide) rfl hby
  have hfront : AtTokens [.word "by"] d₁ := front_of_word h.settled hby
  obtain ⟨-, -, hlook, -⟩ := look_header
  obtain ⟨s₂, s₃, huser⟩ := userType_at htype h hfront (hlook (.rule .typeArguments) (by simp))
  have harguments := fails_of_look (hlook (.rule .valueArguments) (by simp)) hfront
  exact ⟨_, s₂, s₃, _, .node rfl
    (.step huser h.settled (.optional (.second harguments (.step hkeyword he hexpression))))⟩

/-- One supertype in front of a class body. -/
theorem oneSupertype_at {t : Node} (hd : AtTokens [.mark '\x7b'] d)
    (h : Evaluates grammar {} (.rule .supertype) c (some ([t], d))) :
    Evaluates grammar {} (Pattern.sepBy (.rule .supertype) ",") c (some ([t], d)) := by
  obtain ⟨-, -, -, hlook, -⟩ := look_header
  have hcomma := fails_of_look (hlook (.text [',']) (by simp)) hd
  exact Evaluates.step h hd.1 (.noStar (.noFirst hcomma))

/-- The part of an operator expression behind its first operand. -/
def operatorEnd : Pattern Rule :=
  .seq (.star Grammar.postfixPart) (.star (Pattern.all
    [Grammar.infixPart, .star Grammar.prefixPart, Grammar.primaryExpression,
      .star Grammar.postfixPart]))

/-- A name as the first operand of an operator expression. -/
theorem operatorExpression_at (hname : isName u) (h : Spaced u c d)
    (hend : Evaluates grammar {} operatorEnd d (some (us, e))) :
    ∃ s t, Evaluates grammar {} (.rule .operatorExpression) c
      (some ([.node .operatorExpression s (.token .simpleIdentifier t (.ofList u) :: us)], e)) := by
  obtain ⟨c₁, hc₁, htoken⟩ := name_at hname h
  have hfront := front_of_name hname h
  obtain ⟨-, -, -, -, hlook⟩ := look_header
  have hfails := fun p hp => fails_of_look (hlook p hp) hfront
  have hprimary : Evaluates grammar {} Grammar.primaryExpression c
      (some ([.token .simpleIdentifier ⟨c.index, c₁.index⟩ (.ofList u)], c₁)) :=
    .second (hfails (.rule .literal) (by simp)) (.second
      (hfails (.rule .constructorInvocation) (by simp)) (.second
        (hfails (.rule .switchExpression) (by simp)) (.second
          (hfails (.rule .whenExpression) (by simp)) (.second
            (.noFirst (hfails (.text ['(']) (by simp))) htoken))))
  exact ⟨_, _, .node rfl (seq_skip hfront.1 (.noStar (hfails Grammar.prefixPart (by simp)))
    (.step hprimary hc₁ hend))⟩

/-- Nothing but a lambda can follow the delegate in front of a brace. -/
theorem invocation_cases (hd : AtTokens [.mark '\x7b'] d)
    {result : Option (List Node × Cursor)}
    (h : Evaluates grammar {} (.rule .lambdaBody) d result) :
    Evaluates grammar {} (Pattern.all [.optional (.rule .typeArguments), Pattern.oneOf
      [Pattern.all [.rule .valueArguments, .optional (.rule .lambdaBody)], .rule .lambdaBody]])
      d result := by
  obtain ⟨-, -, -, hlook, -⟩ := look_header
  have htypes := fails_of_look (hlook (.rule .typeArguments) (by simp)) hd
  have harguments := fails_of_look (hlook (.rule .valueArguments) (by simp)) hd
  cases result with
  | none =>
    refine .noSecond (.noOptional htypes) ?_
    rw [between_default, hd.1]
    exact .second (.noFirst harguments) h
  | some result => exact seq_skip hd.1 (.noOptional htypes) (.second (.noFirst harguments) h)

/-- If no lambda can be read at the brace, the delegate is the name alone. -/
theorem nameDelegate_at (hname : isName u) (h : Spaced u c d) (hd : AtTokens [.mark '\x7b'] d)
    (hlambda : Evaluates grammar {} (.rule .lambdaBody) d none) :
    ∃ s₁ s₂ s₃, Evaluates grammar {} (.rule .expression) c
      (some ([.node .expression s₁ [.node .operatorExpression s₂
        [.token .simpleIdentifier s₃ (.ofList u)]]], d)) := by
  obtain ⟨-, -, -, hlook, -⟩ := look_header
  have hfails := fun p hp => fails_of_look (hlook p hp) hd
  have hpostfix : Evaluates grammar {} Grammar.postfixPart d none :=
    .second (.noRule (.second (hfails (.rule .postfixToken) (by simp)) (.second
      (.noRule (invocation_cases hd hlambda)) (.second (hfails (.rule .indexingSuffix) (by simp))
        (hfails (.rule .callSuffix) (by simp)))))) (hfails (.rule .castOperator) (by simp))
  have hend : Evaluates grammar {} operatorEnd d (some ([], d)) :=
    seq_skip hd.1 (.noStar hpostfix) (.noStar (.noFirst (hfails Grammar.infixPart (by simp))))
  obtain ⟨s₂, s₃, hoperator⟩ := operatorExpression_at hname h hend
  exact ⟨_, s₂, s₃, .node rfl
    (.step hoperator hd.1 (.noOptional (hfails (.rule .forSuffix) (by simp))))⟩

/-- If a lambda can be read at the brace, the delegate goes on with an operator. -/
theorem callDelegate_at (hname : isName u) (h : Spaced u c d) (hd : AtTokens [.mark '\x7b'] d)
    (hlambda : Evaluates grammar {} (.rule .lambdaBody) d (some (us, e))) :
    ∃ s₁ s₂ items suffix f, 2 ≤ items.length ∧ Evaluates grammar {} (.rule .expression) c
      (some ([.node .expression s₁ (.node .operatorExpression s₂ items :: suffix)], f)) := by
  obtain ⟨-, -, -, hlook, -⟩ := look_header
  have hfails := fun p hp => fails_of_look (hlook p hp) hd
  have hinvocation := Evaluates.node (g := grammar) (r := .invocationSuffix) rfl
    (invocation_cases hd hlambda)
  have hpostfix := Evaluates.node (g := grammar) (r := .postfixOperator) rfl
    (.second (hfails (.rule .postfixToken) (by simp)) (.first hinvocation))
  have htame : operatorEnd.isTame isSolid rank 100 :=
    (Pattern.isTame_of_seq (Pattern.isTame_of_seq (grammar_tame.isTame .operatorExpression)).2).2
  obtain ⟨htame₁, htame₂⟩ := Pattern.isTame_of_seq htame
  obtain ⟨vs, f₁, hmore⟩ := total_some (p := .more Grammar.postfixPart) htame₁ (fun _ => nofun) e
  obtain ⟨ws, f₂, hinfix⟩ := total_some htame₂ (fun _ => nofun) f₁.skipLayout
  have hend : Evaluates grammar {} operatorEnd d _ :=
    Evaluates.step (.star (.first hpostfix) hmore) rfl hinfix
  obtain ⟨s₂, s₃, hoperator⟩ := operatorExpression_at hname h hend
  obtain ⟨suffix, f, hsuffix⟩ := total_some (p := .optional (.rule .forSuffix)) rfl
    (fun _ => nofun) f₂.skipLayout
  refine ⟨_, s₂, _, suffix, f, ?_, .node rfl (.step hoperator rfl hsuffix)⟩
  simp

end

/-- The tree of a class with the given name, the trees of its supertypes and that of its body. -/
def classNode (s : Nat → Span) (name : String) (supers body : List Node) : Node :=
  .node .declaration (s 0) [.node .typeDeclaration (s 1) [.node .classDeclaration (s 2)
    (.token .kwClass (s 3) "class" :: .token .simpleIdentifier (s 4) name :: (supers ++ body))]]

/-- A file that starts with such a class. -/
def fileNode (span : Span) (s : Nat → Span) (name : String) (supers body others : List Node) :
    Node :=
  .node .quovaFile span (classNode s name supers body :: others)

/-- What is matched behind the header of a class: its body, further declarations and the end of the
input. -/
def Continues (c : Cursor) (body others : List Node) : Prop :=
  ∃ ds es d₁ d₂ d₃ d₄, others = ds ++ es ∧
    Evaluates grammar {} (.optional (.rule .classBody)) c (some (body, d₁)) ∧
    Evaluates grammar {} (.optional (.text [';'])) d₁.skipLayout (some ([], d₂)) ∧
    Evaluates grammar {} (.more (.rule .declaration)) d₂ (some (ds, d₃)) ∧
    Evaluates grammar {} (.rule .endOfInput) d₃.skipLayout (some (es, d₄))

/-- A file starts with the word `class`, a name and a colon; the supertypes follow at `c₃`. -/
structure Header (name : List Char) (c₀ c₁ c₂ c₃ : Cursor) : Prop where
  index_eq : c₀.index = 0
  settled : c₀.skipLayout = c₀
  keyword : Spaced "class".toList c₀ c₁
  isName : isName name
  name : Spaced name c₁ c₂
  colon : Spaced [':'] c₂ c₃

theorem Header.front {name : List Char} {c₀ c₁ c₂ c₃ : Cursor} (h : Header name c₀ c₁ c₂ c₃) :
    AtTokens [.word "class"] c₀ :=
  front_of_word h.settled h.keyword

section

variable {c₀ c₁ c₂ c₃ e : Cursor} {name : List Char} {supers body others : List Node}
  (header : Header name c₀ c₁ c₂ c₃)
  (hsupers : Evaluates grammar {} (Pattern.sepBy (.rule .supertype) ",") c₃ (some (supers, e)))

include header hsupers

theorem class_at {d₁ d₂ : Cursor}
    (hbody : Evaluates grammar {} (.optional (.rule .classBody)) e.skipLayout (some (body, d₁)))
    (hsemicolon : Evaluates grammar {} (.optional (.text [';'])) d₁.skipLayout (some ([], d₂))) :
    ∃ s, Evaluates grammar {} (.rule .declaration) c₀
      (some ([classNode s (.ofList name) supers body], d₂)) := by
  have hfails := fun p hp => fails_of_look (look_header.1 p hp) header.front
  obtain ⟨e₁, he₁, hkeyword⟩ := word_at (r := .kwClass) (by decide) rfl header.keyword
  obtain ⟨e₂, he₂, htoken⟩ := name_at header.isName header.name
  obtain ⟨e₃, hpasses, hblank, hc₃⟩ := header.colon
  have hmark : AtTokens [.mark ':'] c₂ := ⟨header.name.settled, _, hpasses.rest_eq⟩
  have hfails' := fun p hp => fails_of_look (look_header.2.1 p hp) hmark
  have hsupertypes : Evaluates grammar {} (.optional Grammar.supertypes) c₂ (some (supers, e)) :=
    .optional (.step (.text (strip?_of_passes hpasses)) (skipLayout_of_blank hblank hc₃) hsupers)
  have hclassNode := Evaluates.node (g := grammar) (r := .classDeclaration) rfl
    (seq_skip header.settled (.noStar (hfails (Pattern.oneOf
        [.rule .inheritanceModifier, .rule .kwSealed, .rule .kwInner]) (by simp)))
      (.step hkeyword he₁ (.step htoken he₂
        (seq_skip hmark.1 (.noOptional (hfails' (.rule .variantTypeParameters) (by simp)))
          (seq_skip hmark.1 (.noOptional (hfails' (.rule .valueParameters) (by simp)))
            (.step hsupertypes rfl hbody))))))
  have htypeNode := Evaluates.node (g := grammar) (r := .typeDeclaration) rfl
    (seq_skip header.settled (.noStar (hfails (.rule .annotationUse) (by simp)))
      (seq_skip header.settled (.noOptional (hfails (.rule .visibilityModifier) (by simp)))
        (.step (.first hclassNode) rfl hsemicolon)))
  have hnode := Evaluates.node (g := grammar) (r := .declaration) rfl (.first htypeNode)
  refine ⟨fun
    | 0 | 1 => ⟨c₀.index, d₂.index⟩
    | 2 => ⟨c₀.index, d₁.index⟩
    | 3 => ⟨c₀.index, e₁.index⟩
    | _ => ⟨c₁.index, e₂.index⟩, hnode⟩

theorem file_of_continues (h : Continues e.skipLayout body others) :
    ∃ span s d, Evaluates grammar {} (.rule .quovaFile) c₀
      (some ([fileNode span s (.ofList name) supers body others], d)) := by
  obtain ⟨ds, es, d₁, d₂, d₃, d₄, rfl, hbody, hsemicolon, hmore, hend⟩ := h
  obtain ⟨s, hdeclaration⟩ := class_at header hsupers hbody hsemicolon
  have hfails := fun p hp => fails_of_look (look_header.1 p hp) header.front
  exact ⟨_, s, d₄, .node rfl
    (seq_skip header.settled (.start header.index_eq)
      (seq_skip header.settled (.noOptional (hfails (.rule .shebangLine) (by simp)))
        (seq_skip header.settled (.noOptional (hfails (.rule .packageHeader) (by simp)))
          (seq_skip header.settled (.noStar (hfails (.rule .importHeader) (by simp)))
            (.step (.star hdeclaration hmore) rfl hend)))))⟩

theorem continues_of_file {tree : Node} {d : Cursor}
    (h : Evaluates grammar {} (.rule .quovaFile) c₀ (some ([tree], d))) :
    ∃ span s body others, tree = fileNode span s (.ofList name) supers body others ∧
      Continues e.skipLayout body others := by
  have hfails := fun p hp => fails_of_look (look_header.1 p hp) header.front
  obtain ⟨inner, htree, hfile⟩ := node_of_rule rfl h
  obtain rfl := (List.cons.inj htree).1
  have h₁ := of_seq_skip hfile header.settled (.start header.index_eq)
  have h₂ := of_seq_skip h₁ header.settled (.noOptional (hfails (.rule .shebangLine) (by simp)))
  have h₃ := of_seq_skip h₂ header.settled (.noOptional (hfails (.rule .packageHeader) (by simp)))
  have h₄ := of_seq_skip h₃ header.settled (.noStar (hfails (.rule .importHeader) (by simp)))
  obtain ⟨ts, es, d₃, rfl, hdeclarations, hend⟩ := h₄.of_seq
  -- the class is matched whatever its body is, and so it is the first declaration
  obtain ⟨body, d₁, hbody⟩ := total_some (p := .optional (.rule .classBody)) rfl
    (fun _ => nofun) e.skipLayout
  obtain ⟨us, d₂, hsemicolon⟩ := total_some (p := .optional (.text [';'])) rfl
    (fun _ => nofun) d₁.skipLayout
  obtain rfl : us = [] := by
    rcases hsemicolon.of_optional with hsome | ⟨-, rfl, -⟩
    · exact hsome.of_text.1
    · rfl
  obtain ⟨s, hclassNode⟩ := class_at header hsupers hbody hsemicolon
  rcases hdeclarations.of_star with ⟨hnone, -, -⟩ | ⟨us, ds, d', rfl, hone, hmore⟩
  · cases hnone.unique hclassNode
  · cases hone.unique hclassNode
    exact ⟨_, s, body, ds ++ es, rfl, ds, es, d₁, d₂, d₃, d, rfl, hbody, hsemicolon, hmore, hend⟩

end

theorem grammar_avoids (r : Rule) (hr : r ≠ .quovaFile) :
    (grammar.body r).avoids .quovaFile := by
  have hall : Rule.list.all fun r => r ≠ .quovaFile → (grammar.body r).avoids .quovaFile := by
    decide +kernel
  exact of_decide_eq_true (List.all_eq_true.mp hall r (mem_rules r)) hr

theorem shift_some {p : Pattern Rule} {c c' d : Cursor} {ts : List Node}
    (h : Evaluates grammar {} p c (some (ts, d))) (hp : p.avoids .quovaFile)
    (hc : c.rest = c'.rest) :
    ∃ us d', Evaluates grammar {} p c' (some (us, d')) ∧
      List.Forall₂ ParseTree.Alike ts us ∧ d.rest = d'.rest := by
  obtain ⟨result, h', hsame⟩ := h.shift grammar_avoids hp hc
  obtain ⟨us, d', rfl, hts, hd⟩ := hsame.of_some
  rw [← List.forall₂_eq_eq_eq, List.forall₂_map_left_iff, List.forall₂_map_right_iff] at hts
  exact ⟨us, d', h', hts, hd⟩

theorem shift_none {p : Pattern Rule} {c c' : Cursor} (h : Evaluates grammar {} p c none)
    (hp : p.avoids .quovaFile) (hc : c.rest = c'.rest) : Evaluates grammar {} p c' none := by
  obtain ⟨result, h', hsame⟩ := h.shift grammar_avoids hp hc
  obtain rfl := hsame.of_none
  exact h'

/-- Behind the header the same text is matched in the same way. -/
theorem Continues.shift {c c' : Cursor} {body others : List Node} (h : Continues c body others)
    (hc : c.rest = c'.rest) :
    ∃ body' others', Continues c' body' others' ∧ List.Forall₂ ParseTree.Alike body body' ∧
      List.Forall₂ ParseTree.Alike others others' := by
  obtain ⟨ds, es, d₁, d₂, d₃, d₄, rfl, hbody, hsemicolon, hmore, hend⟩ := h
  obtain ⟨body', d₁', hbody', hsame, h₁⟩ := shift_some hbody rfl hc
  obtain ⟨us, d₂', hsemicolon', hnil, h₂⟩ :=
    shift_some hsemicolon rfl (Cursor.skipLayout_rest h₁)
  obtain rfl := List.forall₂_nil_left_iff.mp hnil
  obtain ⟨ds', d₃', hmore', hds, h₃⟩ := shift_some hmore rfl h₂
  obtain ⟨es', d₄', hend', hes, -⟩ := shift_some hend rfl (Cursor.skipLayout_rest h₃)
  exact ⟨body', ds' ++ es', ⟨ds', es', d₁', d₂', d₃', d₄', rfl, hbody', hsemicolon', hmore', hend'⟩,
    hsame, List.rel_append hds hes⟩

/-- Behind the first declaration only declarations follow, and the end of the input. -/
theorem Continues.rules {c : Cursor} {body others : List Node} (h : Continues c body others) :
    ∀ t ∈ others, t.rule = .declaration ∨ t.rule = .endOfInput := by
  obtain ⟨ds, es, d₁, d₂, d₃, d₄, rfl, -, -, hmore, hend⟩ := h
  intro t ht
  rcases List.mem_append.mp ht with ht | ht
  · have hword := (hmore.makes rfl _ _ rfl).1
    have hmem := hword.mem_rules t.rule (List.mem_map_of_mem ht)
    exact .inl (List.mem_singleton.mp hmem)
  · have hword := (hend.makes rfl _ _ rfl).1
    have hmem := hword.mem_rules t.rule (List.mem_map_of_mem ht)
    exact .inr (List.mem_singleton.mp hmem)

/-- At a brace the class has a body. -/
theorem Continues.body_eq {c : Cursor} {body others : List Node} (hc : AtTokens [.mark '\x7b'] c)
    (h : Continues c body others) :
    ∃ span members d, body = [.node .classBody span members] ∧
      Evaluates grammar {} (.rule .classBody) c (some ([.node .classBody span members], d)) := by
  obtain ⟨ds, es, d₁, d₂, d₃, d₄, rfl, hbody, hsemicolon, hmore, hend⟩ := h
  rcases hbody.of_optional with hsome | ⟨-, rfl, rfl⟩
  · obtain ⟨inner, rfl, -⟩ := node_of_rule rfl hsome
    exact ⟨_, inner, d₁, rfl, hsome⟩
  · -- nothing else can stand at the brace, and the input does not end there
    obtain ⟨-, -, -, hlook, -⟩ := look_header
    have hfails := fun p hp => fails_of_look (hlook p hp) hc
    rw [hc.1] at hsemicolon
    cases hsemicolon.unique (.noOptional (hfails (.text [';']) (by simp)))
    have hnone : Evaluates grammar {} (.rule .declaration) (between {} d₁) none := by
      rw [between_default, hc.1]
      exact hfails (.rule .declaration) (by simp)
    cases hmore.unique (.noMore hnone)
    obtain ⟨inner, -, hstop⟩ := node_of_rule rfl hend
    obtain ⟨rest, hrest⟩ := hc.2
    rw [hc.1] at hstop
    cases hstop with
    | stop hnil =>
      rw [hrest] at hnil
      cases hnil

end QuovaKotlin.Source

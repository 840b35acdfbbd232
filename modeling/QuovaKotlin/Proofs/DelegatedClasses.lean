import QuovaKotlin.Proofs.ClassHeaders

/-!
# Classes with a delegate

The text of a class with one supertype is read without a delegate and with one. What stands behind
the header is the same text both times, so it is read alike as long as the delegate does not take
the class body.
-/

set_option autoImplicit false

namespace QuovaKotlin.Reading

open Ast Peg Source

/-- A file of nothing but declarations is read from these. -/
theorem readFile_of_rules {tree : Node}
    (h : ∀ t ∈ tree.children, t.rule = .declaration ∨ t.rule = .endOfInput) :
    readFile tree =
      (fun declarations => ⟨none, none, [.standardLibrary, .integerAlias], declarations⟩) <$>
        each tree .declaration ((Readers.ofHeight tree.height).declaration .member) := by
  have hchild : ∀ rule, rule ≠ .declaration → rule ≠ .endOfInput → tree.child? rule = none := by
    intro rule hdeclaration hend
    refine List.find?_eq_none.mpr fun t ht hrule => ?_
    have hrule := of_decide_eq_true hrule
    rcases h t ht with heq | heq
    · exact hdeclaration (hrule.symm.trans heq)
    · exact hend (hrule.symm.trans heq)
  have hnone : tree.childrenOf .importHeader = [] := by
    refine List.filter_eq_nil_iff.mpr fun t ht hrule => ?_
    have hrule := of_decide_eq_true hrule
    rcases h t ht with heq | heq <;> rw [heq] at hrule <;> cases hrule
  have hshebang : textOf? tree .shebangLine = none := by
    rw [textOf?, hchild .shebangLine (by decide) (by decide)]
    rfl
  have hpackage : atMostOne tree .packageHeader (fun header => textOf header .identifier) =
      .ok none := by
    rw [atMostOne, hchild .packageHeader (by decide) (by decide)]
  have himports : each tree .importHeader readImport = .ok [] := by
    rw [each, hnone]
    rfl
  rw [readFile, hshebang, hpackage, himports]
  rfl

section

variable {parts : Readers} {s₁ s₂ s₃ s₄ : Span} {type name : String} {es items suffix : List Node}

theorem readSupertype_bare :
    readSupertype parts (.node .supertype s₁ [userTypeNode s₂ s₃ type]) =
      .ok (.bare ⟨type, []⟩) :=
  rfl

theorem readSupertype_delegated {span : Span} :
    readSupertype parts (.node .supertype s₁
      [userTypeNode s₂ s₃ type, .token .kwBy s₄ "by", .node .expression span es]) =
        .delegated ⟨type, []⟩ <$> parts.expression (.node .expression span es) := by
  show ((some <$> parts.expression (.node .expression span es)) >>= fun delegate => _) = _
  cases parts.expression (.node .expression span es) with
  | error problem => rfl
  | ok delegate => rfl

theorem expression_name :
    parts.next.expression (.node .expression s₁ [.node .operatorExpression s₂
      [.token .simpleIdentifier s₃ name]]) = .ok (.identifier name) :=
  rfl

theorem readGrouping_ne_identifier {grouping : Precedence.Grouping Node}
    (hlength : 2 ≤ grouping.items.length) :
    readGrouping parts grouping ≠ .ok (.identifier name) := by
  intro h
  cases grouping with
  | leaf item =>
    rw [Precedence.Grouping.items] at hlength
    simp at hlength
  | before operator operand =>
    obtain ⟨e, -, h⟩ := bind_eq_ok h
    unfold readPrefixed at h
    split at h
    · cases h
    · obtain ⟨_, -, h⟩ := bind_eq_ok h
      cases h
  | behind operand operator =>
    obtain ⟨e, -, h⟩ := bind_eq_ok h
    unfold readSuffixed at h
    split at h <;> (obtain ⟨_, -, h⟩ := bind_eq_ok h; cases h)
  | between left operator right =>
    obtain ⟨e, -, h⟩ := bind_eq_ok h
    obtain ⟨e', -, h⟩ := bind_eq_ok h
    unfold readInfix at h
    split at h <;> (obtain ⟨_, -, h⟩ := bind_eq_ok h; cases h)

/-- An operand with an operator is not read as a name. -/
theorem readExpression_ne_identifier (hlength : 2 ≤ items.length) :
    readExpression parts (.node .expression s₁ (.node .operatorExpression s₂ items :: suffix)) ≠
      .ok (.identifier name) := by
  intro h
  obtain ⟨mapping, hmapping, h⟩ := bind_eq_ok h
  have hmapping : readOperatorExpression parts (.node .operatorExpression s₂ items) =
    .ok mapping := hmapping
  unfold readOperatorExpression at hmapping
  split at hmapping
  next grouping hgroup =>
    have hitems : grouping.items = items := (Precedence.group_sound hgroup).1
    rw [← hitems] at hlength
    split at h
    · cases h
      exact readGrouping_ne_identifier hlength hmapping
    · obtain ⟨condition, -, h⟩ := bind_eq_ok h
      obtain ⟨header, -, h⟩ := bind_eq_ok h
      cases h
  next => cases hmapping

end

/-- A class with one supertype and a body, without modifiers and parameters. -/
def plainClass (name : String) (supertype : Supertype) (members : Members) : Declaration :=
  .type [] .internalAccess name (.classType ⟨none, false, false⟩ [] none [supertype] members)

section

variable {parts : Readers} {s : Nat → Span} {span span' : Span} {name : String}
  {ts members supers body : List Node}

/-- A class with one supertype and a body is read from the two. -/
theorem readDeclaration_classNode :
    readDeclaration parts .member
        (classNode s name [.node .supertype span ts] [.node .classBody span' members]) = (do
      let supertype ← readSupertype parts (.node .supertype span ts)
      let members ← readMembers parts (.node .classBody span' members)
      return plainClass name supertype (.partition members)) := by
  let node : Node := .node .classDeclaration (s 2) [.token .kwClass (s 3) "class",
    .token .simpleIdentifier (s 4) name, .node .supertype span ts, .node .classBody span' members]
  have hsupertypes : readSupertypes parts node =
      (fun supertype => [supertype]) <$> readSupertype parts (.node .supertype span ts) := by
    show [ParseTree.node .supertype span ts].mapM (readSupertype parts) = _
    rw [List.mapM_cons, List.mapM_nil]
    rfl
  show (readSupertypes parts node >>= fun supertypes =>
    readClassBody parts .classBody node >>= fun members =>
      .ok (TypeKind.classType ⟨none, false, false⟩ [] none supertypes members)) >>= (fun kind =>
        .ok (Declaration.type [] .internalAccess name kind)) = _
  rw [hsupertypes]
  cases readSupertype parts (.node .supertype span ts) with
  | error problem => rfl
  | ok supertype =>
    show ((Members.partition <$> ((some <$> readMembers parts (.node .classBody span' members)) >>=
      fun members => .ok (members.getD []))) >>= _) >>= _ = _
    cases readMembers parts (.node .classBody span' members) with
    | error problem => rfl
    | ok members => rfl

/-- The first supertype of a class is read from the first tree. -/
theorem readSupertype_of_classNode {supertype : Supertype} {members : Members}
    (h : readDeclaration parts .member
      (classNode s name (.node .supertype span ts :: supers) body) =
        .ok (plainClass name supertype members)) :
    readSupertype parts (.node .supertype span ts) = .ok supertype := by
  let node : Node := .node .classDeclaration (s 2) (.token .kwClass (s 3) "class" ::
    .token .simpleIdentifier (s 4) name :: (.node .supertype span ts :: supers ++ body))
  have h : (readClass parts node >>= fun kind => .ok (.type [] .internalAccess name kind)) =
    .ok (plainClass name supertype members) := h
  obtain ⟨kind, hkind, heq⟩ := bind_eq_ok h
  cases heq
  obtain ⟨parameters, -, hkind⟩ := bind_eq_ok hkind
  obtain ⟨inheritance, -, hkind⟩ := bind_eq_ok hkind
  obtain ⟨typeParameters, -, hkind⟩ := bind_eq_ok hkind
  obtain ⟨supertypes, hsupertypes, hkind⟩ := bind_eq_ok hkind
  obtain ⟨members, -, hkind⟩ := bind_eq_ok hkind
  obtain rfl : supertypes = [supertype] := (TypeKind.classType.inj (Except.ok.inj hkind)).2.2.2.1
  have hsupertypes : (ParseTree.node .supertype span ts ::
      (supers ++ body).filter (·.rule = .supertype)).mapM (readSupertype parts) =
        .ok [supertype] := hsupertypes
  rw [List.mapM_cons] at hsupertypes
  obtain ⟨first, hfirst, hsupertypes⟩ := bind_eq_ok hsupertypes
  obtain ⟨others, -, hsupertypes⟩ := bind_eq_ok hsupertypes
  cases hsupertypes
  exact hfirst

end

/-- The readers of the declarations of a file that starts with a class. -/
def declarationParts (s : Nat → Span) (name : String) (supers body others : List Node) : Readers :=
  .ofHeight (ParseTree.heightAll (classNode s name supers body :: others))

theorem declarationParts_next (s : Nat → Span) (name : String) (supers body others : List Node) :
    ∃ parts, declarationParts s name supers body others = .next parts := by
  obtain ⟨height, hheight⟩ : ∃ height,
      ParseTree.heightAll (classNode s name supers body :: others) = height + 1 := by
    refine ⟨ParseTree.heightAll (classNode s name supers body :: others) - 1, ?_⟩
    simp only [classNode, ParseTree.heightAll, ParseTree.height]
    omega
  exact ⟨.ofHeight height, by rw [declarationParts, hheight]; rfl⟩

/-- Such a file is read from the class and from the declarations behind it. -/
theorem readFile_fileNode {span : Span} {s : Nat → Span} {name : String}
    {supers body others : List Node} {file : SourceFile}
    (hothers : ∀ t ∈ others, t.rule = .declaration ∨ t.rule = .endOfInput) :
    readFile (fileNode span s name supers body others) = .ok file ↔
      ∃ first rest,
        readDeclaration (declarationParts s name supers body others) .member
          (classNode s name supers body) = .ok first ∧
        (others.filter (·.rule = .declaration)).mapM
          (readDeclaration (declarationParts s name supers body others) .member) = .ok rest ∧
        file = ⟨none, none, [.standardLibrary, .integerAlias], first :: rest⟩ := by
  have hrules : ∀ t ∈ (fileNode span s name supers body others).children,
      t.rule = .declaration ∨ t.rule = .endOfInput := by
    intro t ht
    rcases List.mem_cons.mp ht with rfl | ht
    · exact .inl rfl
    · exact hothers t ht
  have heach : each (fileNode span s name supers body others) .declaration
      ((Readers.ofHeight (fileNode span s name supers body others).height).declaration .member) =
      (classNode s name supers body :: others.filter (·.rule = .declaration)).mapM
        (readDeclaration (declarationParts s name supers body others) .member) :=
    rfl
  rw [readFile_of_rules hrules, heach, List.mapM_cons]
  constructor
  · intro h
    obtain ⟨declarations, hdeclarations, rfl⟩ := map_eq_ok h
    obtain ⟨first, hfirst, hdeclarations⟩ := bind_eq_ok hdeclarations
    obtain ⟨rest, hrest, hdeclarations⟩ := bind_eq_ok hdeclarations
    cases hdeclarations
    exact ⟨first, rest, hfirst, hrest, rfl⟩
  · rintro ⟨first, rest, hfirst, hrest, rfl⟩
    rw [hfirst, hrest]
    rfl

end QuovaKotlin.Reading

namespace QuovaKotlin.Source

open Ast Peg Peg.Grammar Reading Lexical

theorem skipLayout_of_head {index : Nat} {x : Char} {rest : List Char}
    (hx : ¬ Layout.isBlank x ∧ x ≠ '/') :
    (⟨index, x :: rest⟩ : Cursor).skipLayout = ⟨index, x :: rest⟩ :=
  skipLayout_of_passes (d := ⟨index + 1, rest⟩) (x := x) (u := []) ⟨rfl, rfl⟩ hx

theorem skipLayout_of_name {index : Nat} {name rest : List Char} (hname : isName name) :
    (⟨index, name ++ rest⟩ : Cursor).skipLayout = ⟨index, name ++ rest⟩ := by
  obtain ⟨x, u, rfl, hx, -⟩ := isName_iff.mp hname
  exact skipLayout_of_head (not_layout_of_isWordChar (isWordChar_of_isWordStart hx))

theorem skipLayout_of_typeName {index : Nat} {type rest : List Char} (htype : IsTypeName type) :
    (⟨index, type ++ rest⟩ : Cursor).skipLayout = ⟨index, type ++ rest⟩ := by
  obtain ⟨first, others, hfirst, -, rfl⟩ := htype
  rw [List.append_assoc]
  exact skipLayout_of_name hfirst

theorem spaced_of_skipLayout {index : Nat} {u rest : List Char}
    (h : (⟨index + u.length + 1, rest⟩ : Cursor).skipLayout = ⟨index + u.length + 1, rest⟩) :
    Spaced u ⟨index, u ++ ' ' :: rest⟩ ⟨index + u.length + 1, rest⟩ :=
  ⟨⟨index + u.length, ' ' :: rest⟩, ⟨rfl, rfl⟩, ⟨rfl, rfl⟩, h⟩

/-- The text of a class up to its one supertype, with the cursors between its words. -/
theorem header_at {text : String} {name type tail : List Char} (hname : isName name)
    (htype : IsTypeName type)
    (htail : ∀ index, (⟨index, tail⟩ : Cursor).skipLayout = ⟨index, tail⟩)
    (htext : text.toList =
      "class".toList ++ ' ' :: (name ++ ' ' :: ':' :: ' ' :: (type ++ ' ' :: tail))) :
    ∃ c₁ c₂ c₃ d, Header name ⟨0, text.toList⟩ c₁ c₂ c₃ ∧ Spaced type c₃ d ∧ d.rest = tail := by
  rw [htext]
  exact ⟨_, _, _, _, ⟨rfl, skipLayout_of_head (x := 'c') (by decide),
    spaced_of_skipLayout (skipLayout_of_name hname), hname,
    spaced_of_skipLayout (skipLayout_of_head (by decide)),
    spaced_of_skipLayout (u := [':']) (skipLayout_of_typeName htype)⟩,
    spaced_of_skipLayout (htail _), rfl⟩

/-- The text of a delegate. -/
theorem delegate_at {c : Cursor} {delegate tail : List Char} (hdelegate : isName delegate)
    (htail : ∀ index, (⟨index, tail⟩ : Cursor).skipLayout = ⟨index, tail⟩)
    (hrest : c.rest = "by".toList ++ ' ' :: (delegate ++ ' ' :: tail)) :
    ∃ d₁ d₂, Spaced "by".toList c d₁ ∧ Spaced delegate d₁ d₂ ∧ d₂.rest = tail := by
  obtain ⟨index, rest⟩ := c
  obtain rfl := hrest
  exact ⟨_, _, spaced_of_skipLayout (skipLayout_of_name hdelegate),
    spaced_of_skipLayout (htail _), rfl⟩

theorem readMember?_of_classBody {parts : Readers} {t : Node} {c d : Cursor}
    (h : Evaluates grammar {} (.rule .classBody) c (some ([t], d))) :
    ∀ child ∈ t.children, (readMember? parts child).isSome := by
  obtain ⟨inner, hnode, hbody⟩ := node_of_rule rfl h
  obtain rfl := (List.cons.inj hnode).1
  intro child hchild
  have hword := (hbody.makes rfl _ _ rfl).1
  exact readMember?_isSome (hword.mem_rules child.rule (List.mem_map_of_mem hchild))

/-- The members of a class tell whether a node of its body is not a declaration. -/
theorem exists_member_iff {parts : Readers} {t : Node} {c d : Cursor} {members : List Member}
    (h : Evaluates grammar {} (.rule .classBody) c (some ([t], d)))
    (hmembers : readMembers parts t = .ok members) :
    (∃ m ∈ (Members.partition members).instances ++ (Members.partition members).statics,
      m.isDeclaration = false) ↔ ∃ child ∈ t.children, child.rule ≠ .declaration := by
  have hmap := isDeclaration_of_readMembers hmembers (readMember?_of_classBody h)
  have hsplit : ∀ m, m ∈ (Members.partition members).instances ++
      (Members.partition members).statics ↔ m ∈ members := by
    intro m
    rw [Members.partition, List.mem_append, List.mem_filter, List.mem_filter]
    cases m.isStatic <;> simp
  calc
    _ ↔ false ∈ members.map Member.isDeclaration := by
      simp only [hsplit, List.mem_map]
    _ ↔ false ∈ t.children.map fun child => decide (child.rule = .declaration) := by
      rw [hmap]
    _ ↔ _ := by
      simp only [List.mem_map, decide_eq_false_iff_not, ne_eq]

/-- What stands behind the header of a class without a delegate is matched and read. -/
def BodyRead (name type : String) (c : Cursor) (body : Node) (others : List Node)
    (members : List Member) (rest : List Declaration) : Prop :=
  Continues c [body] others ∧ ∃ s s₁ s₂ s₃,
    let parts := declarationParts s name [.node .supertype s₁ [userTypeNode s₂ s₃ type]] [body]
      others
    readMembers parts body = .ok members ∧
      (others.filter (·.rule = .declaration)).mapM (readDeclaration parts .member) = .ok rest

theorem BodyRead.members_eq {name type : String} {c : Cursor} {body : Node} {others : List Node}
    {members : List Member} {rest : List Declaration}
    (h : BodyRead name type c body others members rest) :
    ∃ parts, readMembers parts body = .ok members := by
  obtain ⟨-, s, s₁, s₂, s₃, hmembers, -⟩ := h
  exact ⟨_, hmembers⟩

/-- The same is read from trees alike in a file whose class has a longer supertype. -/
theorem BodyRead.carried {name type : String} {c : Cursor} {body body' : Node}
    {others others' : List Node} {members : List Member} {rest : List Declaration}
    (h : BodyRead name type c body others members rest)
    (hbody : List.Forall₂ ParseTree.Alike [body] [body'])
    (hothers : List.Forall₂ ParseTree.Alike others others') (s : Nat → Span) (s₁ s₂ s₃ : Span)
    (us : List Node) :
    let parts := declarationParts s name [.node .supertype s₁ (userTypeNode s₂ s₃ type :: us)]
      [body'] others'
    readMembers parts body' = .ok members ∧
      (others'.filter (·.rule = .declaration)).mapM (readDeclaration parts .member) = .ok rest := by
  obtain ⟨-, s', t₁, t₂, t₃, hmembers, hrest⟩ := h
  have hheight :
      ParseTree.heightAll (classNode s' name [.node .supertype t₁ [userTypeNode t₂ t₃ type]] [body]
        :: others) ≤
      ParseTree.heightAll (classNode s name
        [.node .supertype s₁ (userTypeNode s₂ s₃ type :: us)] [body'] :: others') := by
    have hbody := ParseTree.Alike.heightAll_eq hbody
    have hothers := ParseTree.Alike.heightAll_eq hothers
    simp only [classNode, userTypeNode, ParseTree.height, ParseTree.heightAll, List.cons_append,
      List.nil_append] at hbody ⊢
    omega
  have hparts := carries_ofHeight hheight
  exact ⟨carries_members hparts (List.forall₂_cons.mp hbody).1 hmembers,
    (carries_declaration hparts .member).mapM (ParseTree.Alike.filter hothers .declaration) hrest⟩

section

variable {text name type delegate : String} {c₁ c₂ c₃ d d₁ d₂ : Cursor}
  (header : Header name.toList ⟨0, text.toList⟩ c₁ c₂ c₃) (hisType : IsTypeName type.toList)
  (htype : Spaced type.toList c₃ d)

include header hisType htype

/-- The text of a class without a delegate is read with the body behind the supertype. -/
theorem bareClass_of_parse (hd : AtTokens [.mark '\x7b'] d) {file : SourceFile}
    (h : parse text = .ok file) :
    ∃ body others members rest, BodyRead name type d body others members rest ∧
      file.declarations = plainClass name (.bare ⟨type, []⟩) (.partition members) :: rest := by
  obtain ⟨tree, ⟨e, hfile⟩, hread⟩ := parse_eq_ok_iff.mp h
  obtain ⟨s₁, s₂, s₃, hsupertype⟩ := bareSupertype_at hisType htype hd
  obtain ⟨span, s, body, others, rfl, hcontinues⟩ := continues_of_file header
    (oneSupertype_at hd hsupertype) hfile
  rw [hd.1] at hcontinues
  obtain ⟨span', ts, e', rfl, -⟩ := hcontinues.body_eq hd
  simp only [String.ofList_toList] at hread
  obtain ⟨first, rest, hfirst, hrest, rfl⟩ := (readFile_fileNode hcontinues.rules).mp hread
  rw [readDeclaration_classNode, readSupertype_bare] at hfirst
  obtain ⟨_, ⟨⟩, hfirst⟩ := bind_eq_ok hfirst
  obtain ⟨members, hmembers, hfirst⟩ := bind_eq_ok hfirst
  cases hfirst
  exact ⟨_, others, members, rest, ⟨hcontinues, s, s₁, s₂, s₃, hmembers, hrest⟩, rfl⟩

variable (hby : Spaced "by".toList d d₁) (hisDelegate : isName delegate.toList)
  (hdelegate : Spaced delegate.toList d₁ d₂) (hbrace : AtTokens [.mark '\x7b'] d₂)

include hby hisDelegate hdelegate hbrace

/-- Where no lambda can be read behind the delegate, the class keeps the body. -/
theorem delegatedClass_parse {c : Cursor} {body : Node} {others : List Node}
    {members : List Member} {rest : List Declaration} (hc : c.rest = d₂.rest)
    (hread : BodyRead name type c body others members rest)
    (hlambda : Evaluates grammar {} (.rule .lambdaBody) d₂ none) :
    parse text = .ok ⟨none, none, [.standardLibrary, .integerAlias],
      plainClass name (.delegated ⟨type, []⟩ (.identifier delegate)) (.partition members) ::
        rest⟩ := by
  obtain ⟨body', others', hcontinues, hbody, hothers⟩ := hread.1.shift hc
  obtain ⟨span', ts, -, rfl, -⟩ := hcontinues.body_eq hbrace
  obtain ⟨s₅, s₆, s₇, hexpression⟩ := nameDelegate_at hisDelegate hdelegate hbrace hlambda
  obtain ⟨s₁, s₂, s₃, s₄, hsupertype⟩ := delegatedSupertype_at hisType htype hby hexpression
  rw [← hbrace.1] at hcontinues
  obtain ⟨span, s, e, hfile⟩ := file_of_continues header
    (oneSupertype_at hbrace hsupertype) hcontinues
  simp only [String.ofList_toList] at hfile
  refine parse_eq_ok_iff.mpr ⟨_, ⟨e, hfile⟩, (readFile_fileNode hcontinues.rules).mpr ?_⟩
  obtain ⟨hmembers, hrest⟩ := hread.carried hbody hothers s s₁ s₂ s₃ _
  refine ⟨_, rest, ?_, hrest, rfl⟩
  obtain ⟨parts, hparts⟩ := declarationParts_next s name _ _ others'
  rw [readDeclaration_classNode, readSupertype_delegated, hmembers, hparts, expression_name]
  rfl

/-- Where a lambda can be read behind the delegate, the delegate is not the name alone. -/
theorem delegate_ne_identifier {us : List Node} {e : Cursor}
    (hlambda : Evaluates grammar {} (.rule .lambdaBody) d₂ (some (us, e))) {file : SourceFile}
    {members : Members} {rest : List Declaration} (h : parse text = .ok file) :
    file.declarations ≠
      plainClass name (.delegated ⟨type, []⟩ (.identifier delegate)) members :: rest := by
  intro hdeclarations
  obtain ⟨s₅, s₆, items, suffix, f, hlength, hexpression⟩ :=
    callDelegate_at hisDelegate hdelegate hbrace hlambda
  obtain ⟨s₁, s₂, s₃, s₄, hsupertype⟩ := delegatedSupertype_at hisType htype hby hexpression
  have htame : Grammar.supertypes.isTame isSolid rank 100 :=
    (Pattern.isTame_of_seq (Pattern.isTame_of_seq (Pattern.isTame_of_seq
      (grammar_tame.isTame .singletonDeclaration)).2).2).1
  obtain ⟨supers, f', hmore⟩ := total_some
    (Pattern.isTame_of_seq (Pattern.isTame_of_seq htame).2).2 (fun _ => nofun) f.skipLayout
  have hsupers : Evaluates grammar {} (Pattern.sepBy (.rule .supertype) ",") c₃ _ :=
    Evaluates.step hsupertype rfl hmore
  obtain ⟨tree, ⟨e', hfile⟩, hread⟩ := parse_eq_ok_iff.mp h
  obtain ⟨span, s, body, others, rfl, hcontinues⟩ := continues_of_file header hsupers hfile
  simp only [String.ofList_toList, List.cons_append, List.nil_append] at hread
  obtain ⟨first, rest', hfirst, -, rfl⟩ := (readFile_fileNode hcontinues.rules).mp hread
  cases hdeclarations
  have hread := readSupertype_of_classNode hfirst
  rw [readSupertype_delegated] at hread
  obtain ⟨expression, hread, heq⟩ := map_eq_ok hread
  cases heq
  obtain ⟨parts, hparts⟩ := declarationParts_next s name _ body others
  rw [hparts] at hread
  exact readExpression_ne_identifier hlength hread

end

/-- The text of a class body, with what stands between its braces. -/
def bodyText (body : String) : List Char :=
  '\x7b' :: ' ' :: (body.toList ++ [' ', '\x7d'])

theorem skipLayout_bodyText (body : String) (index : Nat) :
    (⟨index, bodyText body⟩ : Cursor).skipLayout = ⟨index, bodyText body⟩ :=
  skipLayout_of_head (by decide)

theorem toList_bare (name type body : String) :
    ("class " ++ name ++ " : " ++ type ++ " \x7b " ++ body ++ " \x7d").toList =
      "class".toList ++ ' ' :: (name.toList ++ ' ' :: ':' :: ' ' ::
        (type.toList ++ ' ' :: bodyText body)) := by
  simp [bodyText]

theorem toList_delegated (name type delegate body : String) :
    ("class " ++ name ++ " : " ++ type ++ " by " ++ delegate ++ " \x7b " ++ body ++
        " \x7d").toList =
      "class".toList ++ ' ' :: (name.toList ++ ' ' :: ':' :: ' ' :: (type.toList ++ ' ' ::
        ("by".toList ++ ' ' :: (delegate.toList ++ ' ' :: bodyText body)))) := by
  simp [bodyText]

/-- A class with a delegate, and what it is without one. The delegate is the name alone and the
class has the same members exactly if one of them is a constructor or an initializer: the braces
around any other body are read as a last argument of the delegate. -/
theorem delegated_class_keeps_body_iff (name type delegate body : String) {file : SourceFile}
    (hname : isName name.toList) (htype : IsTypeName type.toList)
    (hdelegate : isName delegate.toList)
    (h : parse ("class " ++ name ++ " : " ++ type ++ " \x7b " ++ body ++ " \x7d") = .ok file) :
    ∃ members rest, file.declarations = plainClass name (.bare ⟨type, []⟩) members :: rest ∧
      ((∃ file' rest',
          parse ("class " ++ name ++ " : " ++ type ++ " by " ++ delegate ++ " \x7b " ++ body ++
            " \x7d") = .ok file' ∧
          file'.declarations =
            plainClass name (.delegated ⟨type, []⟩ (.identifier delegate)) members :: rest') ↔
        ∃ m ∈ members.instances ++ members.statics, m.isDeclaration = false) := by
  obtain ⟨c₁, c₂, c₃, d, header, hd, hrest⟩ :=
    header_at hname htype (skipLayout_bodyText body) (toList_bare name type body)
  have hbrace : AtTokens [.mark '\x7b'] d := ⟨hd.settled, _, hrest⟩
  obtain ⟨node, others, members, rest, hread, hfile⟩ := bareClass_of_parse header htype hd hbrace h
  obtain ⟨c₁', c₂', c₃', d', header', hd', hrest'⟩ := header_at hname htype
    (fun _ => skipLayout_of_head (x := 'b') (by decide)) (toList_delegated name type delegate body)
  obtain ⟨d₁, d₂, hby, hd₂, hrest₂⟩ := delegate_at hdelegate (skipLayout_bodyText body) hrest'
  have hbrace₂ : AtTokens [.mark '\x7b'] d₂ := ⟨hd₂.settled, _, hrest₂⟩
  have hsame : d.rest = d₂.rest := hrest.trans hrest₂.symm
  obtain ⟨span, ts, e, hnode, hbody⟩ := hread.1.body_eq hbrace
  cases hnode
  obtain ⟨parts, hmembers⟩ := hread.members_eq
  refine ⟨_, rest, hfile, ?_⟩
  rw [exists_member_iff hbody hmembers]
  rcases lambda_of_classBody hbody with ⟨hall, us, hlambda⟩ | ⟨hsome, hlambda⟩
  · -- the body is a lambda as well, and the delegate comes first
    obtain ⟨us', e', hlambda', -, -⟩ := shift_some hlambda rfl hsame
    constructor
    · rintro ⟨file', rest', hparse, hdeclarations⟩
      exact absurd hdeclarations
        (delegate_ne_identifier header' htype hd' hby hdelegate hd₂ hbrace₂ hlambda' hparse)
    · rintro ⟨child, hchild, hrule⟩
      exact absurd (hall child hchild) hrule
  · have hparse := delegatedClass_parse header' htype hd' hby hdelegate hd₂ hbrace₂ hsame hread
      (shift_none hlambda rfl hsame)
    exact ⟨fun _ => hsome, fun _ => ⟨_, rest, hparse, rfl⟩⟩

/-- The tree of `class N : T { member }` -/
def memberTree (stop : Nat) (member : Node) : Node :=
  fileNode ⟨0, stop⟩
    (fun
      | 0 | 1 | 2 => ⟨0, stop⟩
      | 3 => ⟨0, 5⟩
      | _ => ⟨6, 7⟩)
    "N" [.node .supertype ⟨10, 12⟩ [userTypeNode ⟨10, 12⟩ ⟨10, 11⟩ "T"]]
    [.node .classBody ⟨12, stop⟩ [member]] [.node .endOfInput ⟨stop, stop⟩ []]

def intPropertyTree : Node :=
  .node .declaration ⟨14, 20⟩ [
    .node .propertyDeclaration ⟨14, 20⟩ [
      .node .typeOrVar ⟨14, 18⟩ [
        .node .typeUse ⟨14, 18⟩ [
          .node .primitiveType ⟨14, 18⟩ [.token .primitiveTypeNoArray ⟨14, 17⟩ "int"]]],
      .node .property ⟨18, 19⟩ [.token .simpleIdentifier ⟨18, 19⟩ "x"]]]

def initializerTree : Node :=
  .node .initBlock ⟨14, 22⟩ [.token .kwInit ⟨14, 18⟩ "init", .node .block ⟨19, 22⟩ []]

def intProperty : Member :=
  .declaration (.property ⟨[], .internalAccess, none, [],
    some (.plain (.primitive ⟨.int, false⟩)), [⟨"x", none, none, none, none⟩]⟩)

def memberFile (member : Member) : SourceFile where
  shebang := none
  package := none
  imports := [.standardLibrary, .integerAlias]
  declarations := [plainClass "N" (.bare ⟨"T", []⟩) ⟨[member], []⟩]

theorem parse_members :
    parse "class N : T \x7b init \x7b \x7d \x7d" = .ok (memberFile (.initializer false [])) ∧
    parse "class N : T \x7b int x; \x7d" = .ok (memberFile intProperty) := by
  have htrees :
      (grammar.parse .quovaFile "class N : T \x7b init \x7b \x7d \x7d").toOption =
        some (memberTree 24 initializerTree) ∧
      (grammar.parse .quovaFile "class N : T \x7b int x; \x7d").toOption =
        some (memberTree 22 intPropertyTree) := by
    decide +kernel
  exact ⟨parse_of_toOption _ htrees.1 rfl, parse_of_toOption _ htrees.2 rfl⟩

theorem initializer_kept_property_taken :
    isName "N".toList ∧ IsTypeName "T".toList ∧ isName "d".toList ∧
    parse "class N : T \x7b init \x7b \x7d \x7d" = .ok (memberFile (.initializer false [])) ∧
    (∃ file rest, parse "class N : T by d \x7b init \x7b \x7d \x7d" = .ok file ∧
      file.declarations = plainClass "N" (.delegated ⟨"T", []⟩ (.identifier "d"))
        ⟨[.initializer false []], []⟩ :: rest) ∧
    parse "class N : T \x7b int x; \x7d" = .ok (memberFile intProperty) ∧
    ¬ ∃ file rest, parse "class N : T by d \x7b int x; \x7d" = .ok file ∧
      file.declarations = plainClass "N" (.delegated ⟨"T", []⟩ (.identifier "d"))
        ⟨[intProperty], []⟩ :: rest := by
  have hname : isName "N".toList := by decide
  have htype : IsTypeName "T".toList := ⟨"T".toList, [], by decide, nofun, rfl⟩
  have hdelegate : isName "d".toList := by decide
  obtain ⟨hinitializer, hproperty⟩ := parse_members
  refine ⟨hname, htype, hdelegate, hinitializer, ?_, hproperty, ?_⟩
  · obtain ⟨members, rest, hfile, hiff⟩ := delegated_class_keeps_body_iff "N" "T" "d"
      "init \x7b \x7d" hname htype hdelegate hinitializer
    cases hfile
    exact hiff.mpr ⟨_, List.mem_cons_self, rfl⟩
  · obtain ⟨members, rest, hfile, hiff⟩ := delegated_class_keeps_body_iff "N" "T" "d" "int x;"
      hname htype hdelegate hproperty
    cases hfile
    intro h
    obtain ⟨m, hm, hdeclaration⟩ := hiff.mp h
    obtain rfl := List.mem_singleton.mp hm
    cases hdeclaration

end QuovaKotlin.Source

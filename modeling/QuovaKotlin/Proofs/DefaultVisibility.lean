import QuovaKotlin.Proofs.MemberBuckets

/-!
# Default visibility

A declaration without a keyword for its visibility gets one from the place where it stands, and from
nothing further out: a member of an interface is public, a statement is local, and all others are
internal. Every declaration of a file stands in exactly such a place, and was read from a node that
stands in the body of that place.
-/

set_option autoImplicit false

namespace QuovaKotlin.Ast

open Reading (Scope memberScope)

def Declaration.visibility : Declaration → Visibility
  | .type _ visibility _ _ => visibility
  | .function declaration => declaration.visibility
  | .property declaration => declaration.visibility

/-- The keyword for a visibility. There is none for local access. -/
def Visibility.keyword? : Visibility → Option String
  | .publicAccess => some "public"
  | .privateAccess => some "private"
  | .protectedAccess => some "protected"
  | .internalAccess => some "internal"
  | .localAccess => none

theorem Visibility.ofKeyword?_eq_some_iff {text : String} {v : Visibility} :
    ofKeyword? text = some v ↔ v.keyword? = some text := by
  constructor
  · intro h
    unfold ofKeyword? at h
    split at h <;> cases h <;> rfl
  · intro h
    cases v <;> cases h <;> rfl

/-- The scope in which a declaration of a file stands: that of the file, of a statement, of the body
of a type, or of the body of an entry of an enum. -/
inductive SourceFile.Declares (file : SourceFile) : Scope → Declaration → Prop
  | topLevel {d : Declaration} : d ∈ file.declarations → Declares file .member d
  | statement {d : Declaration} : file.Contains (.statement (.declaration d)) →
      Declares file .block d
  | member {kind : TypeKind} {members : Members} {d : Declaration} :
      file.Contains (.typeKind kind) → kind.members? = some members →
      .declaration d ∈ members.instances ++ members.statics → Declares file (memberScope kind) d
  | entry {entry : EnumEntry} {members : List Member} {d : Declaration} :
      file.Contains (.enumEntry entry) → entry.body = some members →
      .declaration d ∈ members → Declares file .member d

/-- What stands in a part is the part or stands directly in something in it. -/
theorem Part.Within.parent {part whole : Part} (h : part.Within whole) :
    part = whole ∨ ∃ parent : Part, parent.Within whole ∧ part ∈ parent.children := by
  induction h with
  | self => exact .inl rfl
  | @child whole child hmem hwithin ih =>
    rcases ih with rfl | ⟨parent, hparent, hpart⟩
    · exact .inr ⟨whole, .self whole, hmem⟩
    · exact .inr ⟨parent, .child hmem hparent, hpart⟩

theorem SourceFile.Contains.parent {file : SourceFile} {part : Part} (h : file.Contains part) :
    (∃ d ∈ file.declarations, part = .declaration d) ∨
      ∃ parent, file.Contains parent ∧ part ∈ parent.children := by
  obtain ⟨d, hd, hwithin⟩ := h
  rcases hwithin.parent with heq | ⟨parent, hparent, hpart⟩
  · exact .inl ⟨d, hd, heq⟩
  · exact .inr ⟨parent, ⟨d, hd, hparent⟩, hpart⟩

theorem declaration_mem_children {d : Declaration} {part : Part}
    (h : .declaration d ∈ part.children) :
    part = .statement (.declaration d) ∨ part = .member (.declaration d) := by
  cases part with
  | statement s => cases s <;> simp_all [Part.children, Statement.parts]
  | member m => cases m <;> simp_all [Part.children, Member.parts]
  | expression e => cases e <;> simp_all [Part.children, Expression.parts]
  | suffix operator => cases operator <;> simp_all [Part.children, PostfixOperator.parts]
  | lambdaBody b => cases b <;> simp_all [Part.children, LambdaBody.parts]
  | annotationArgument a => cases a <;> simp_all [Part.children, AnnotationArgument.parts]
  | declaration d' => cases d' <;> simp_all [Part.children, Declaration.parts]
  | typeKind k => cases k <;> simp_all [Part.children, TypeKind.parts, Members.parts]
  | constant c => cases c <;> simp_all [Part.children, constantParts]
  | supertype s => cases s <;> simp_all [Part.children, Supertype.parts]
  | functionBody b => cases b <;> simp_all [Part.children, FunctionBody.parts]
  | _ => simp_all [Part.children]

theorem member_mem_children {m : Member} {part : Part} (h : .member m ∈ part.children) :
    (∃ kind members, part = .typeKind kind ∧ kind.members? = some members ∧
      m ∈ members.instances ++ members.statics) ∨
    ∃ entry members, part = .enumEntry entry ∧ entry.body = some members ∧ m ∈ members := by
  cases part with
  | typeKind k =>
    refine .inl ⟨k, ?_⟩
    cases k <;> simp_all [Part.children, TypeKind.parts, Members.parts, TypeKind.members?]
  | enumEntry e =>
    refine .inr ⟨e, ?_⟩
    cases hbody : e.body <;> simp_all [Part.children]
  | statement s => cases s <;> simp_all [Part.children, Statement.parts]
  | member m => cases m <;> simp_all [Part.children, Member.parts]
  | expression e => cases e <;> simp_all [Part.children, Expression.parts]
  | suffix operator => cases operator <;> simp_all [Part.children, PostfixOperator.parts]
  | lambdaBody b => cases b <;> simp_all [Part.children, LambdaBody.parts]
  | annotationArgument a => cases a <;> simp_all [Part.children, AnnotationArgument.parts]
  | declaration d => cases d <;> simp_all [Part.children, Declaration.parts]
  | constant c => cases c <;> simp_all [Part.children, constantParts]
  | supertype s => cases s <;> simp_all [Part.children, Supertype.parts]
  | functionBody b => cases b <;> simp_all [Part.children, FunctionBody.parts]
  | _ => simp_all [Part.children]

/-- Every declaration of a file stands in some scope. -/
theorem SourceFile.Declares.of_contains {file : SourceFile} {d : Declaration}
    (h : file.Contains (.declaration d)) : ∃ scope, file.Declares scope d := by
  rcases h.parent with ⟨d', hd', heq⟩ | ⟨parent, hparent, hmem⟩
  · cases heq
    exact ⟨_, .topLevel hd'⟩
  rcases declaration_mem_children hmem with rfl | rfl
  · exact ⟨_, .statement hparent⟩
  rcases hparent.parent with ⟨d', -, heq⟩ | ⟨whole, hwhole, hmem⟩
  · cases heq
  rcases member_mem_children hmem with
    ⟨kind, members, rfl, hmembers, hm⟩ | ⟨entry, members, rfl, hbody, hm⟩
  · exact ⟨_, .member hwhole hmembers hm⟩
  · exact ⟨_, .entry hwhole hbody hm⟩

end QuovaKotlin.Ast

namespace QuovaKotlin.Reading

open Ast Peg
open Peg.ParseTree (Within)
open Source (Rule grammar)

/-- The first keyword for the visibility among the children of a node is kept. Where there is none,
the default is taken. -/
structure HasVisibility (node : Node) (default actual : Visibility) : Prop where
  written {keyword : Node} : node.child? .visibilityModifier = some keyword →
    actual.keyword? = some keyword.text
  unwritten : node.child? .visibilityModifier = none → actual = default

section

variable {parts : Readers} {scope : Scope} {node : Node}

theorem hasVisibility_of_readVisibility {v : Visibility} (h : readVisibility scope node = .ok v) :
    HasVisibility node scope.visibility v := by
  obtain ⟨value, hvalue, h⟩ := bind_eq_ok h
  cases h
  unfold atMostOne at hvalue
  split at hvalue
  · next keyword hkeyword =>
    obtain ⟨v, hv, rfl⟩ := map_eq_ok hvalue
    refine ⟨fun hfound => ?_, fun hnone => ?_⟩
    · cases hkeyword.symm.trans hfound
      exact Visibility.ofKeyword?_eq_some_iff.mp (meaning_eq_ok_iff.mp hv)
    · cases hkeyword.symm.trans hnone
  · next hnone =>
    cases hvalue
    refine ⟨fun hfound => ?_, fun _ => rfl⟩
    cases hnone.symm.trans hfound

/-- There is no keyword for local access, so it comes from the scope. -/
theorem HasVisibility.eq_default_of_local {default : Visibility}
    (h : HasVisibility node default .localAccess) : default = .localAccess := by
  cases hkeyword : node.child? .visibilityModifier with
  | none => exact (h.unwritten hkeyword).symm
  | some keyword => cases h.written hkeyword

theorem hasVisibility_of_readTypeDeclaration {d : Declaration}
    (h : readTypeDeclaration parts scope node = .ok d) :
    HasVisibility node scope.visibility d.visibility := by
  unfold readTypeDeclaration at h
  split at h
  · cases h
  obtain ⟨kind, -, h⟩ := bind_eq_ok h
  obtain ⟨name, -, h⟩ := bind_eq_ok h
  obtain ⟨annotations, -, h⟩ := bind_eq_ok h
  obtain ⟨visibility, hvisibility, h⟩ := bind_eq_ok h
  cases h
  exact hasVisibility_of_readVisibility hvisibility

theorem hasVisibility_of_readFunction {f : FunctionDeclaration}
    (h : readFunction parts scope node = .ok f) :
    HasVisibility node scope.visibility f.visibility := by
  obtain ⟨modifiers, -, h⟩ := bind_eq_ok h
  obtain ⟨returnType, -, h⟩ := bind_eq_ok h
  obtain ⟨throws, -, h⟩ := bind_eq_ok h
  obtain ⟨body, -, h⟩ := bind_eq_ok h
  obtain ⟨annotations, -, h⟩ := bind_eq_ok h
  obtain ⟨visibility, hvisibility, h⟩ := bind_eq_ok h
  obtain ⟨inheritance, -, h⟩ := bind_eq_ok h
  obtain ⟨typeParameters, -, h⟩ := bind_eq_ok h
  obtain ⟨name, -, h⟩ := bind_eq_ok h
  obtain ⟨parameters, -, h⟩ := bind_eq_ok h
  cases h
  exact hasVisibility_of_readVisibility hvisibility

theorem hasVisibility_of_readProperties {p : PropertyDeclaration}
    (h : readProperties parts scope node = .ok p) :
    HasVisibility node scope.visibility p.visibility := by
  obtain ⟨modifiers, -, h⟩ := bind_eq_ok h
  obtain ⟨properties, -, h⟩ := bind_eq_ok h
  obtain ⟨annotations, -, h⟩ := bind_eq_ok h
  obtain ⟨visibility, hvisibility, h⟩ := bind_eq_ok h
  obtain ⟨inheritance, -, h⟩ := bind_eq_ok h
  obtain ⟨type, -, h⟩ := bind_eq_ok h
  cases h
  exact hasVisibility_of_readVisibility hvisibility

theorem hasVisibility_of_readDeclaration {d : Declaration}
    (h : readDeclaration parts scope node = .ok d) :
    ∃ head, node.children.head? = some head ∧
      HasVisibility head scope.visibility d.visibility := by
  obtain ⟨head, hhead, h⟩ := bind_eq_ok h
  obtain ⟨rest, hchildren⟩ := first_eq_ok hhead
  refine ⟨head, by rw [hchildren]; rfl, ?_⟩
  split at h
  · exact hasVisibility_of_readTypeDeclaration h
  · obtain ⟨f, hf, rfl⟩ := map_eq_ok h
    exact hasVisibility_of_readFunction hf
  · obtain ⟨p, hp, rfl⟩ := map_eq_ok h
    exact hasVisibility_of_readProperties hp
  · cases h

theorem hasVisibility_of_readConstructor {annotations : List AnnotationUse} {v : Visibility}
    {parameters : List Parameter} {delegations : List Delegation} {body : FunctionBody}
    (h : readConstructor parts node =
      .ok (.constructor annotations v parameters delegations body)) :
    HasVisibility node .internalAccess v := by
  obtain ⟨_, -, h⟩ := bind_eq_ok h
  obtain ⟨_, -, h⟩ := bind_eq_ok h
  obtain ⟨_, -, h⟩ := bind_eq_ok h
  obtain ⟨visibility, hvisibility, h⟩ := bind_eq_ok h
  obtain ⟨_, -, h⟩ := bind_eq_ok h
  cases h
  exact hasVisibility_of_readVisibility hvisibility

end

/-- The nodes in which the declarations of a scope stand. -/
def Scope.bodies : Scope → List Rule
  | .member => [.quovaFile, .classBody, .singletonBody, .enumClassBody, .annotationBody]
  | .interface => [.interfaceBody]
  | .block => [.statement]

/-- The node of a declaration that stands directly in a body of the scope. -/
def IsDeclarationIn (tree : Node) (scope : Scope) (node : Node) : Prop :=
  node.rule = .declaration ∧
    ∃ body, Within body tree ∧ body.rule ∈ scope.bodies ∧ node ∈ body.children

/-- What is read from the node of a declaration in a scope. -/
def Declared (scope : Scope) (node : Node) (d : Declaration) : Prop :=
  ∃ height, readDeclaration (.ofHeight height) scope node = .ok d

/-- A declaration is read from a node in its scope. -/
def IsFoundIn (tree : Node) (scope : Scope) (d : Declaration) : Prop :=
  ∃ node, IsDeclarationIn tree scope node ∧ Declared scope node d

theorem isFoundIn_of_readers {tree body node : Node} {scope : Scope} {d : Declaration}
    {height : Nat} (hbody : Within body tree) (hscope : body.rule ∈ scope.bodies)
    (hmem : node ∈ body.children) (hrule : node.rule = .declaration)
    (h : (Readers.ofHeight height).declaration scope node = .ok d) : IsFoundIn tree scope d := by
  cases height with
  | zero => cases h
  | succ height => exact ⟨node, ⟨hrule, body, hbody, hscope, hmem⟩, height, h⟩

/-- A statement that is a declaration was read as one, and not as a statement of another kind. -/
theorem declaration_of_readStatement {parts : Readers} {node : Node} {d : Declaration}
    (h : readStatement parts node = .ok (.declaration d)) :
    ∃ inner ∈ node.children, inner.rule = .declaration ∧
      parts.declaration .block inner = .ok d := by
  obtain ⟨inner, hinner, hmem⟩ := rule_of_readStatement h
  have hrule : inner.rule = .declaration := List.mem_singleton.mp hmem
  unfold readStatement at h
  rw [hinner, ok_bind, hrule] at h
  obtain ⟨d', hd', heq⟩ := map_eq_ok h
  cases heq
  exact ⟨inner, of_first hinner, hrule, hd'⟩

section

variable {tree node : Node} {d : Declaration} {height : Nat}

theorem isFoundIn_of_readStatement (hnode : Within node tree) (hrule : node.rule = .statement)
    (h : readStatement (.ofHeight height) node = .ok (.declaration d)) :
    IsFoundIn tree .block d := by
  obtain ⟨inner, hmem, hinner, hd⟩ := declaration_of_readStatement h
  exact isFoundIn_of_readers hnode (hrule ▸ List.mem_cons_self) hmem hinner hd

theorem isFoundIn_of_readBody (hnode : Within node tree)
    (h : readBody (.ofHeight height) node = .ok (.declaration d)) : IsFoundIn tree .block d := by
  obtain ⟨body, hbody, h⟩ := bind_eq_ok h
  split at h
  · obtain ⟨_, -, heq⟩ := map_eq_ok h
    cases heq
  · next hrule =>
    cases height with
    | zero => cases h
    | succ height => exact isFoundIn_of_readStatement (.of_mem (of_first hbody) hnode) hrule h
  · cases h
  · cases h

theorem readSimpleStatement_ne_declaration {parts : Readers} :
    readSimpleStatement parts node ≠ .ok (.declaration d) := by
  intro h
  obtain ⟨inner, -, h⟩ := bind_eq_ok h
  split at h
  · cases rules_of_readAssignment h
  · obtain ⟨_, -, heq⟩ := map_eq_ok h
    cases heq
  · cases h

theorem isFoundIn_of_isMemberOf {body : Node} {scope : Scope} (hbody : Within body tree)
    (hscope : body.rule ∈ scope.bodies) (hmem : node ∈ body.children)
    (h : IsMemberOf (.ofHeight height) scope node (.declaration d)) : IsFoundIn tree scope d := by
  rcases h with ⟨-, h⟩ | ⟨-, h⟩ | ⟨hrule, d', hd', heq⟩
  · unfold readConstructor at h
    repeat obtain ⟨_, -, h⟩ := bind_eq_ok h
    cases h
  · unfold readInitBlock at h
    obtain ⟨_, -, h⟩ := bind_eq_ok h
    cases h
  · cases heq
    exact isFoundIn_of_readers hbody hscope hmem hrule hd'

/-- The body of a declaration is one of its scope. -/
theorem bodyRule_mem_bodies {parts : Readers} {kind : TypeKind} {members : Members}
    (h : readTypeKind parts node = .ok kind) (hmembers : kind.members? = some members) :
    bodyRule node.rule ∈ (memberScope kind).bodies := by
  unfold readTypeKind at h
  split at h
  case h_9 => cases h
  case h_5 =>
    obtain ⟨_, -, h⟩ := bind_eq_ok h
    obtain ⟨_, -, h⟩ := bind_eq_ok h
    cases h
    cases hmembers
  all_goals
    next hrule =>
    rw [hrule]
    repeat obtain ⟨_, -, h⟩ := bind_eq_ok h
    cases h
    simp [bodyRule, memberScope, Scope.bodies]

theorem isFoundIn_of_readTypeKind {text : String} {kind : TypeKind} {members : Members}
    (htree : grammar.parse .quovaFile text = .ok tree) (hnode : Within node tree)
    (h : readTypeKind (.ofHeight height) node = .ok kind) (hmembers : kind.members? = some members)
    (hd : .declaration d ∈ members.instances ++ members.statics) :
    IsFoundIn tree (memberScope kind) d := by
  obtain ⟨all, hall, heq⟩ := members_of_readTypeKind htree hnode h hmembers
  have hmem : .declaration d ∈ all := by
    rw [heq] at hd
    split at hd
    · exact hd
    · rcases List.mem_append.mp hd with hd | hd
      · exact (List.mem_filter.mp hd).1
      · exact (List.mem_filter.mp hd).1
  obtain ⟨child, hchild, hmember⟩ := exists_of_forall₂ hall hmem
  unfold memberNodes at hchild
  split at hchild
  · cases hchild
  · next body hbody =>
    obtain ⟨hwithin, hrule⟩ := mem_of_child? hbody
    refine isFoundIn_of_isMemberOf (.of_mem hwithin hnode) ?_ (List.mem_filter.mp hchild).1 hmember
    rw [hrule]
    exact bodyRule_mem_bodies h hmembers

theorem isFoundIn_of_readEnumEntry {entry : EnumEntry} {members : List Member}
    (hnode : Within node tree) (h : readEnumEntry (.ofHeight height) node = .ok entry)
    (hbody : entry.body = some members) (hd : .declaration d ∈ members) :
    IsFoundIn tree .member d := by
  obtain ⟨arguments, -, h⟩ := bind_eq_ok h
  obtain ⟨value, hvalue, h⟩ := bind_eq_ok h
  obtain ⟨annotations, -, h⟩ := bind_eq_ok h
  obtain ⟨name, -, h⟩ := bind_eq_ok h
  cases h
  obtain ⟨body, hmem, hrule, hread⟩ := of_atMostOne hvalue members hbody
  obtain ⟨reading, hreading, hm⟩ := of_mapM hread _ hd
  obtain ⟨child, hchild, hmember⟩ := List.mem_filterMap.mp hreading
  have hscope : body.rule ∈ Scope.member.bodies := by
    rw [hrule]
    decide
  exact isFoundIn_of_isMemberOf (.of_mem hmem hnode) hscope hchild
    (isMemberOf_of_readMember? hmember hm)

/-- Every declaration of a file is found in the scope in which it stands. -/
theorem isFoundIn_of_declares {text : String} {file : SourceFile} {scope : Scope}
    (htree : grammar.parse .quovaFile text = .ok tree) (hread : readFile tree = .ok file)
    (h : file.Declares scope d) : IsFoundIn tree scope d := by
  cases h with
  | topLevel hd =>
    obtain ⟨package, -, h⟩ := bind_eq_ok hread
    obtain ⟨imports, -, h⟩ := bind_eq_ok h
    obtain ⟨declarations, hdeclarations, h⟩ := bind_eq_ok h
    cases h
    obtain ⟨child, hmem, hrule, hchild⟩ := of_each hdeclarations d hd
    have hscope : tree.rule ∈ Scope.member.bodies := by
      rw [(Grammar.parse_makes htree).2]
      decide
    exact isFoundIn_of_readers (.self tree) hscope hmem hrule hchild
  | statement hstatement =>
    obtain ⟨height, node, hnode, hreading⟩ := origin_of_contains hread hstatement
    rcases hreading with ⟨hrule, h⟩ | ⟨-, h⟩ | ⟨-, h⟩
    · exact isFoundIn_of_readStatement hnode hrule h
    · exact isFoundIn_of_readBody hnode h
    · exact absurd h readSimpleStatement_ne_declaration
  | member hkind hmembers hd =>
    obtain ⟨height, node, hnode, hreading⟩ := origin_of_contains hread hkind
    exact isFoundIn_of_readTypeKind htree hnode hreading hmembers hd
  | entry hentry hbody hd =>
    obtain ⟨height, node, hnode, -, hreading⟩ := origin_of_contains hread hentry
    exact isFoundIn_of_readEnumEntry hnode hreading hbody hd

end

end QuovaKotlin.Reading

namespace QuovaKotlin.Source

open Ast Peg Reading

/-- In an accepted text every node of a declaration is read. -/
theorem exists_declared {text : String} {file : SourceFile} {tree node : Node} {scope : Scope}
    (htree : grammar.parse .quovaFile text = .ok tree) (hread : readFile tree = .ok file)
    (hnode : IsDeclarationIn tree scope node) : ∃ d, Declared scope node d := by
  obtain ⟨hrule, body, hbody, -, hmem⟩ := hnode
  have hwithin : ParseTree.Within node tree := .of_mem hmem hbody
  obtain ⟨c, e, heval⟩ := Grammar.evaluates_of_within grammar_kind htree hwithin
  have hsite := site_of_evaluates heval
  rw [hrule] at hsite
  have hclean : ¬ Offends tree := by
    intro hoffends
    obtain ⟨hmade, hroot⟩ := Grammar.parse_makes htree
    obtain ⟨_, _, herror⟩ := (settles_file hmade hroot).2 hoffends
    rw [hread] at herror
    cases herror
  obtain ⟨d, hd⟩ := ((settle_ofHeight node.height).declaration scope node hsite).1
    fun ⟨call, hcall, hdictionary⟩ => hclean ⟨call, hcall.trans hwithin, hdictionary⟩
  cases hheight : node.height with
  | zero => exact absurd hheight (Nat.ne_of_gt (height_pos node))
  | succ height =>
    rw [hheight] at hd
    exact ⟨d, height, hd⟩

/-- Every declaration of a file stands in a scope, and is read from a node there. A keyword for its
visibility is kept; without one it is public in an interface, local as a statement, and internal in
every other scope, whatever stands around the scope. Constructors are internal without a keyword.
Only statements are local. -/
theorem visibility_of_innermost_scope {text : String} {file : SourceFile}
    (h : parse text = .ok file) :
    ∃ tree, grammar.parse .quovaFile text = .ok tree ∧
      (∀ d, file.Contains (.declaration d) → ∃ scope, file.Declares scope d) ∧
      (∀ scope d, file.Declares scope d →
        (∃ node, IsDeclarationIn tree scope node ∧ Declared scope node d) ∧
        (d.visibility = .localAccess → scope = .block)) ∧
      (∀ scope node, IsDeclarationIn tree scope node →
        (∃ d, Declared scope node d) ∧
        ∀ d, Declared scope node d → ∃ head, node.children.head? = some head ∧
          HasVisibility head
            (match scope with
              | .interface => .publicAccess
              | .block => .localAccess
              | .member => .internalAccess)
            d.visibility) ∧
      ∀ annotations visibility parameters delegations body,
        file.Contains (.member (.constructor annotations visibility parameters delegations body)) →
        visibility ≠ .localAccess ∧
        (∃ height node, ParseTree.Within node tree ∧ node.rule = .constructorDeclaration ∧
          readConstructor (.ofHeight height) node =
            .ok (.constructor annotations visibility parameters delegations body)) ∧
        ∀ height node, readConstructor (.ofHeight height) node =
            .ok (.constructor annotations visibility parameters delegations body) →
          HasVisibility node .internalAccess visibility := by
  obtain ⟨tree, htree, hread⟩ := tree_of_parse h
  refine ⟨tree, htree, fun d hd => SourceFile.Declares.of_contains hd, fun scope d hd => ?_,
    fun scope node hnode => ⟨exists_declared htree hread hnode, ?_⟩, ?_⟩
  · obtain ⟨node, hnode, height, hd⟩ := isFoundIn_of_declares htree hread hd
    refine ⟨⟨node, hnode, height, hd⟩, fun hlocal => ?_⟩
    obtain ⟨head, -, hvisibility⟩ := hasVisibility_of_readDeclaration hd
    rw [hlocal] at hvisibility
    have hdefault := hvisibility.eq_default_of_local
    cases scope with
    | block => rfl
    | member | interface => cases hdefault
  · rintro d ⟨height, hd⟩
    obtain ⟨head, hhead, hvisibility⟩ := hasVisibility_of_readDeclaration hd
    refine ⟨head, hhead, ?_⟩
    cases scope <;> exact hvisibility
  · intro annotations visibility parameters delegations body hcontains
    obtain ⟨height, node, hnode, hrule, hreading⟩ := origin_of_contains hread hcontains
    refine ⟨?_, ⟨height, node, hnode, hrule, hreading⟩, fun _ _ hreading => ?_⟩
    · rintro rfl
      cases (hasVisibility_of_readConstructor hreading).eq_default_of_local
    · exact hasVisibility_of_readConstructor hreading

/-- The tree of a function without a body, `int name();`, with a keyword in front of it or none. -/
def bodilessTree (start stop typeStart : Nat) (keywords : List Node) (name : String) : Node :=
  .node .declaration ⟨start, stop⟩ [
    .node .functionDeclaration ⟨start, stop⟩ (keywords ++ [
      .node .typeOrVoid ⟨typeStart, typeStart + 4⟩ [.node .typeUse ⟨typeStart, typeStart + 4⟩ [
        .node .primitiveType ⟨typeStart, typeStart + 4⟩ [
          .token .primitiveTypeNoArray ⟨typeStart, typeStart + 3⟩ "int"]]],
      .token .simpleIdentifier ⟨typeStart + 4, typeStart + 5⟩ name,
      .node .valueParameters ⟨typeStart + 5, typeStart + 7⟩ []])]

def unmarkedTree : Node :=
  bodilessTree 30 38 30 [] "g"

def markedTree : Node :=
  bodilessTree 39 55 47 [.token .visibilityModifier ⟨39, 46⟩ "private"] "h"

def interfaceBodyTree : Node :=
  .node .interfaceBody ⟨28, 57⟩ [unmarkedTree, markedTree]

/-- The tree of `class A { f() { interface I { int g(); private int h(); } } }` -/
def localInterfaceTree : Node :=
  .node .quovaFile ⟨0, 61⟩ [
    .node .declaration ⟨0, 61⟩ [.node .typeDeclaration ⟨0, 61⟩ [
      .node .classDeclaration ⟨0, 61⟩ [.token .kwClass ⟨0, 5⟩ "class",
        .token .simpleIdentifier ⟨6, 7⟩ "A", .node .classBody ⟨8, 61⟩ [
          .node .declaration ⟨10, 60⟩ [.node .functionDeclaration ⟨10, 60⟩ [
            .token .simpleIdentifier ⟨10, 11⟩ "f", .node .valueParameters ⟨11, 13⟩ [],
            .node .functionBody ⟨14, 59⟩ [.node .block ⟨14, 59⟩ [.node .statement ⟨16, 58⟩ [
              .node .declaration ⟨16, 58⟩ [.node .typeDeclaration ⟨16, 58⟩ [
                .node .interfaceDeclaration ⟨16, 57⟩ [.token .kwInterface ⟨16, 25⟩ "interface",
                  .token .simpleIdentifier ⟨26, 27⟩ "I", interfaceBodyTree]]]]]]]]]]]],
    .node .endOfInput ⟨61, 61⟩ []]

def bodilessFunction (visibility : Visibility) (name : String) : Declaration :=
  .function ⟨[], visibility, none, [], [], some (.type ⟨.primitive ⟨.int, false⟩, 0, false⟩),
    name, [], [], .absent⟩

def localInterfaceKind : TypeKind :=
  .interface [] [] ⟨[.declaration (bodilessFunction .publicAccess "g"),
    .declaration (bodilessFunction .privateAccess "h")], []⟩

/-- An interface that is local to a function of a class. -/
def localInterfaceFile : SourceFile where
  shebang := none
  package := none
  imports := [.standardLibrary, .integerAlias]
  declarations := [.type [] .internalAccess "A" (.classType ⟨none, false, false⟩ [] none []
    ⟨[.declaration (.function ⟨[], .internalAccess, none, [], [], none, "f", [], [],
      .block [.declaration (.type [] .localAccess "I" localInterfaceKind)]⟩)], []⟩)]

def localInterfaceText : String :=
  "class A \x7b f() \x7b interface I \x7b int g(); private int h(); \x7d \x7d \x7d"

theorem localInterface_tree :
    (grammar.parse .quovaFile localInterfaceText).toOption = some localInterfaceTree := by
  decide +kernel

theorem parse_localInterface : parse localInterfaceText = .ok localInterfaceFile :=
  parse_of_toOption localInterfaceTree localInterface_tree rfl

theorem interfaceBodyTree_within : ParseTree.Within interfaceBodyTree localInterfaceTree := by
  have hthird {a b c : Node} {rest : List Node} : c ∈ a :: b :: c :: rest :=
    List.mem_cons_of_mem _ (List.mem_cons_of_mem _ List.mem_cons_self)
  exact .child List.mem_cons_self (.child List.mem_cons_self (.child List.mem_cons_self
    (.child hthird (.child List.mem_cons_self (.child List.mem_cons_self (.child hthird
      (.child List.mem_cons_self (.child List.mem_cons_self (.child List.mem_cons_self
        (.child List.mem_cons_self (.child List.mem_cons_self (.child hthird
          (.self _)))))))))))))

theorem localInterfaceFile_contains : localInterfaceFile.Contains (.typeKind localInterfaceKind) :=
  ⟨_, List.mem_cons_self, .child List.mem_cons_self (.child List.mem_cons_self
    (.child List.mem_cons_self (.child List.mem_cons_self (.child List.mem_cons_self
      (.child List.mem_cons_self (.child List.mem_cons_self (.child List.mem_cons_self
        (.self _))))))))⟩

theorem localInterface_visibility :
    parse localInterfaceText = .ok localInterfaceFile ∧
    localInterfaceFile.Declares .interface (bodilessFunction .publicAccess "g") ∧
    localInterfaceFile.Declares .interface (bodilessFunction .privateAccess "h") ∧
    grammar.parse .quovaFile localInterfaceText = .ok localInterfaceTree ∧
    IsDeclarationIn localInterfaceTree .interface unmarkedTree ∧
    Declared .interface unmarkedTree (bodilessFunction .publicAccess "g") ∧
    (∃ head, unmarkedTree.children.head? = some head ∧
      head.child? .visibilityModifier = none ∧ HasVisibility head .publicAccess .publicAccess) ∧
    IsDeclarationIn localInterfaceTree .interface markedTree ∧
    Declared .interface markedTree (bodilessFunction .privateAccess "h") ∧
    ∃ head keyword, markedTree.children.head? = some head ∧
      head.child? .visibilityModifier = some keyword ∧ keyword.text = "private" ∧
      HasVisibility head .publicAccess .privateAccess := by
  have hunmarked : Declared .interface unmarkedTree (bodilessFunction .publicAccess "g") :=
    ⟨0, rfl⟩
  have hmarked : Declared .interface markedTree (bodilessFunction .privateAccess "h") := ⟨0, rfl⟩
  have hfirst : IsDeclarationIn localInterfaceTree .interface unmarkedTree :=
    ⟨rfl, interfaceBodyTree, interfaceBodyTree_within, List.mem_cons_self, List.mem_cons_self⟩
  have hsecond : IsDeclarationIn localInterfaceTree .interface markedTree :=
    ⟨rfl, interfaceBodyTree, interfaceBodyTree_within, List.mem_cons_self,
      List.mem_cons_of_mem _ List.mem_cons_self⟩
  obtain ⟨tree, htree, -, -, hnodes, -⟩ := visibility_of_innermost_scope parse_localInterface
  obtain rfl : localInterfaceTree = tree :=
    Except.ok.inj ((ok_of_toOption localInterface_tree).symm.trans htree)
  obtain ⟨head, hhead, hpublic⟩ := (hnodes _ _ hfirst).2 _ hunmarked
  obtain ⟨head', hhead', hprivate⟩ := (hnodes _ _ hsecond).2 _ hmarked
  refine ⟨parse_localInterface, .member localInterfaceFile_contains rfl List.mem_cons_self,
    .member localInterfaceFile_contains rfl (List.mem_cons_of_mem _ List.mem_cons_self), htree,
    hfirst, hunmarked, ⟨head, hhead, ?_, hpublic⟩, hsecond, hmarked, head',
    .token .visibilityModifier ⟨39, 46⟩ "private", hhead', ?_, rfl, hprivate⟩
  · cases hhead
    rfl
  · cases hhead'
    rfl

end QuovaKotlin.Source

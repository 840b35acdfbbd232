import QuovaKotlin.Proofs.PrintedParts
import QuovaKotlin.Proofs.Reading.File
import QuovaKotlin.Proofs.Reading.FileOrigins

/-!
# Static and other members

Kotlin has no static members: what is marked as static goes into a companion object, behind the
members of instances. A class-like declaration therefore keeps its members in two lists. Wherever it
stands in a file, the two lists together hold every member of its body once, as it was read and in
the order of the text, and each list is printed in its own place.
-/

set_option autoImplicit false

namespace QuovaKotlin.Ast

open Text

/-- The member carries the mark itself: a function or a property by its modifier, an initializer by
the keyword in front of it. -/
inductive Member.IsMarkedStatic : Member → Prop
  | function {f : FunctionDeclaration} : .static ∈ f.modifiers →
      IsMarkedStatic (.declaration (.function f))
  | property {p : PropertyDeclaration} : .static ∈ p.modifiers →
      IsMarkedStatic (.declaration (.property p))
  | initializer {body : List Statement} : IsMarkedStatic (.initializer true body)

theorem Member.isStatic_iff (m : Member) : m.isStatic ↔ m.IsMarkedStatic := by
  constructor
  · intro h
    cases m with
    | declaration declaration =>
      cases declaration with
      | type => cases h
      | function f => exact .function (List.contains_iff_mem.mp h)
      | property p => exact .property (List.contains_iff_mem.mp h)
    | constructor => cases h
    | initializer isStatic body =>
      obtain rfl : isStatic = true := h
      exact .initializer
  · rintro (h | h | _)
    · exact List.contains_iff_mem.mpr h
    · exact List.contains_iff_mem.mpr h
    · rfl

/-- The two lists hold the members of `all`, each of them once and in their order, by their mark. -/
structure Members.Splits (members : Members) (all : List Member) : Prop where
  statics_marked : ∀ m ∈ members.statics, m.IsMarkedStatic
  instances_unmarked : ∀ m ∈ members.instances, ¬ m.IsMarkedStatic
  statics_sublist : members.statics.Sublist all
  instances_sublist : members.instances.Sublist all
  perm : (members.instances ++ members.statics).Perm all

theorem Members.partition_splits (all : List Member) : (Members.partition all).Splits all where
  statics_marked := by
    intro m hm
    exact m.isStatic_iff.mp (List.mem_filter.mp hm).2
  instances_unmarked := by
    intro m hm hmarked
    have hm := (List.mem_filter.mp hm).2
    rw [m.isStatic_iff.mpr hmarked] at hm
    cases hm
  statics_sublist := List.filter_sublist
  instances_sublist := List.filter_sublist
  perm := List.perm_append_comm.trans (List.filter_append_perm _ all)

namespace TypeKind

/-- The members of a class-like declaration. The constants of a primitive type are none. -/
def members? : TypeKind → Option Members
  | .classType _ _ _ _ members | .singleton _ members | .interface _ _ members
  | .enumClass _ _ _ _ members | .record _ _ _ members | .inlineClass _ _ members
  | .annotationType _ members => some members
  | .constants .. => none

def isSingleton : TypeKind → Bool
  | .singleton .. => true
  | _ => false

/-- The same declaration without its members. -/
def withoutMembers : TypeKind → TypeKind
  | .classType modifiers typeParameters parameters supertypes _ =>
    .classType modifiers typeParameters parameters supertypes ⟨[], []⟩
  | .singleton supertypes _ => .singleton supertypes ⟨[], []⟩
  | .interface typeParameters supertypes _ => .interface typeParameters supertypes ⟨[], []⟩
  | .enumClass typeParameters parameters supertypes entries _ =>
    .enumClass typeParameters parameters supertypes entries ⟨[], []⟩
  | .constants bitfield type entries => .constants bitfield type entries
  | .record typeParameters parameters supertypes _ =>
    .record typeParameters parameters supertypes ⟨[], []⟩
  | .inlineClass parameter supertypes _ => .inlineClass parameter supertypes ⟨[], []⟩
  | .annotationType parameters _ => .annotationType parameters ⟨[], []⟩

/-- What stands in front of the items of a body and behind them. The braces of an enum class are
there already, around its entries. -/
def braces : TypeKind → String × String
  | .enumClass .. => ("\n", "")
  | _ => (" \x7b\n", "\n\x7d")

/-- What closes the text of a declaration without members. -/
def foot : TypeKind → String
  | .enumClass .. => "\n\x7d"
  | _ => ""

/-- The text is that of the declaration without members, with the items on lines of their own set in
where its body belongs. -/
def Shows (kind : TypeKind) (items : List String) : Prop :=
  ∀ name, ∃ head, kind.withoutMembers.kotlin name = head ++ kind.foot ∧
    kind.kotlin name = head ++
      (if items.isEmpty then "" else kind.braces.1 ++ lines items ++ kind.braces.2) ++ kind.foot

end TypeKind

/-- One item for each member of instances, and one for all static members. -/
def Members.items (members : Members) : List String :=
  members.instances.map (·.kotlin) ++
    if members.statics.isEmpty then []
    else ["companion object \x7b\n" ++ lines (members.statics.map (·.kotlin)) ++ "\n\x7d"]

theorem lines_concat (texts : List String) (text : String) :
    lines (texts ++ [text]) = lines texts ++ onlyIf (! texts.isEmpty) "\n" ++ text := by
  induction texts with
  | nil => rw [lines, lines, joinWith.eq_def]; simp [onlyIf, joinWith]
  | cons s texts ih =>
    cases texts with
    | nil => rfl
    | cons t texts =>
      have hstep (us : List String) : lines (s :: t :: us) = s ++ "\n" ++ lines (t :: us) := rfl
      rw [List.cons_append, List.cons_append, hstep, ← List.cons_append, ih, hstep]
      simp only [String.append_assoc, List.isEmpty_cons]

theorem Members.memberList_eq (members : Members) :
    memberList (Member.kotlinEach members.instances) (Member.kotlinEach members.statics) =
      lines members.items := by
  rw [memberList, items, Member.kotlinEach_eq_map, Member.kotlinEach_eq_map, List.isEmpty_map]
  by_cases hstatics : members.statics.isEmpty
  · rw [if_pos hstatics, if_pos hstatics, List.append_nil, String.append_empty]
  · rw [if_neg hstatics, if_neg hstatics, lines_concat]
    simp only [String.append_assoc]

theorem Members.isEmpty_items (members : Members) :
    members.items.isEmpty = (members.instances.isEmpty && members.statics.isEmpty) := by
  rw [items]
  by_cases hstatics : members.statics.isEmpty
  · rw [if_pos hstatics, hstatics, List.append_nil, List.isEmpty_map, Bool.and_true]
  · rw [if_neg hstatics, Bool.eq_false_iff.mpr hstatics, Bool.and_false]
    exact List.isEmpty_eq_false_iff.mpr (List.append_ne_nil_of_right_ne_nil _ (List.cons_ne_nil _ _))

theorem Members.body_eq (members : Members) :
    members.body =
      if members.items.isEmpty then "" else " \x7b\n" ++ lines members.items ++ "\n\x7d" := by
  have hbody : members.body = memberBody (Member.kotlinEach members.instances)
      (Member.kotlinEach members.statics) := by
    cases members
    rw [Members.body]
  rw [hbody, memberBody, members.isEmpty_items, members.memberList_eq, Member.kotlinEach_eq_map,
    Member.kotlinEach_eq_map, List.isEmpty_map, List.isEmpty_map]

theorem Members.tail_eq (members : Members) :
    members.tail = if members.items.isEmpty then "" else "\n" ++ lines members.items := by
  rw [members.isEmpty_items, ← members.memberList_eq]
  cases members
  rw [Members.tail]

theorem Members.flatBody_eq {members : Members} (h : members.instances = []) :
    members.flatBody =
      if (members.statics.map (·.kotlin)).isEmpty then ""
      else " \x7b\n" ++ lines (members.statics.map (·.kotlin)) ++ "\n\x7d" := by
  cases members
  obtain rfl := h
  rw [Members.flatBody, Member.kotlinEach_eq_map, List.isEmpty_map]
  rfl

/-- How a kind of declaration prints its members. -/
def TypeKind.bodyText : TypeKind → Members → String
  | .singleton .., members => members.flatBody
  | .enumClass .., members => members.tail
  | _, members => members.body

/-- Nothing else in the text of a declaration depends on its members. -/
theorem TypeKind.kotlin_frame {kind : TypeKind} {members : Members}
    (hmembers : kind.members? = some members) (name : String) :
    ∃ head, kind.withoutMembers.kotlin name = head ++ kind.bodyText ⟨[], []⟩ ++ kind.foot ∧
      kind.kotlin name = head ++ kind.bodyText members ++ kind.foot := by
  cases kind with
  | constants => cases hmembers
  | enumClass _ parameters =>
    cases hmembers
    cases parameters <;> exact ⟨_, rfl, rfl⟩
  | classType _ _ parameters =>
    cases hmembers
    cases parameters <;> exact ⟨_, String.append_empty.symm, String.append_empty.symm⟩
  | singleton | interface | record | inlineClass | annotationType =>
    cases hmembers
    exact ⟨_, String.append_empty.symm, String.append_empty.symm⟩

theorem TypeKind.shows_items {kind : TypeKind} {members : Members}
    (hmembers : kind.members? = some members) (hkind : kind.isSingleton = false) :
    kind.Shows members.items := by
  have htext (ms : Members) : kind.bodyText ms =
      if ms.items.isEmpty then "" else kind.braces.1 ++ lines ms.items ++ kind.braces.2 := by
    cases kind with
    | singleton => cases hkind
    | enumClass => rw [bodyText, ms.tail_eq, braces, String.append_empty]
    | _ => exact ms.body_eq
  intro name
  obtain ⟨head, hwithout, hwith⟩ := kotlin_frame hmembers name
  rw [htext] at hwithout hwith
  exact ⟨head, by simpa [Members.items] using hwithout, hwith⟩

theorem TypeKind.shows_statics {kind : TypeKind} {members : Members}
    (hmembers : kind.members? = some members) (hkind : kind.isSingleton = true)
    (hinstances : members.instances = []) :
    kind.Shows (members.statics.map (·.kotlin)) := by
  intro name
  obtain ⟨head, hwithout, hwith⟩ := kotlin_frame hmembers name
  cases kind with
  | singleton =>
    rw [bodyText, Members.flatBody_eq rfl] at hwithout
    rw [bodyText, Members.flatBody_eq hinstances] at hwith
    exact ⟨head, by simpa using hwithout, hwith⟩
  | _ => cases hkind

end QuovaKotlin.Ast

namespace QuovaKotlin.Reading

open Ast Peg Peg.Grammar
open Peg.ParseTree (Within)
open Source (Rule grammar)

/-- The rule of the body that belongs to a declaration. -/
def bodyRule : Rule → Rule
  | .singletonDeclaration => .singletonBody
  | .interfaceDeclaration => .interfaceBody
  | .enumClassDeclaration => .enumClassBody
  | .annotationDeclaration => .annotationBody
  | _ => .classBody

/-- Entries of enums and parameters of annotations stand between the members of a body. -/
def isMemberNode (node : Node) : Bool :=
  node.rule ≠ .enumEntry && node.rule ≠ .annotationParameter

/-- The nodes of all members in the body of a declaration. -/
def memberNodes (node : Node) : List Node :=
  match node.child? (bodyRule node.rule) with
  | none => []
  | some body => body.children.filter isMemberNode

/-- What is declared in an interface is read as a part of an interface. -/
def memberScope : TypeKind → Scope
  | .interface .. => .interface
  | _ => .member

/-- The member is what its node is read as. -/
def IsMemberOf (parts : Readers) (scope : Scope) (node : Node) (m : Member) : Prop :=
  node.rule = .constructorDeclaration ∧ readConstructor parts node = .ok m ∨
    node.rule = .initBlock ∧ readInitBlock parts node = .ok m ∨
    node.rule = .declaration ∧ ∃ d, parts.declaration scope node = .ok d ∧ m = .declaration d

/-- `all` are the members in the body of the declaration that `kind` was read from: each of its
nodes is read as one of them, in the order of the text. -/
def IsBodyOf (tree : Node) (kind : TypeKind) (all : List Member) : Prop :=
  ∃ height node, Within node tree ∧ readTypeKind (.ofHeight height) node = .ok kind ∧
    (memberNodes node).Pairwise (fun m m' => m.span.stop ≤ m'.span.start) ∧
    List.Forall₂ (IsMemberOf (.ofHeight height) (memberScope kind)) (memberNodes node) all

section

variable {parts : Readers} {node : Node}

theorem isMemberOf_of_readMember? {r : Read Member} {m : Member}
    (h : readMember? parts node = some r) (hm : r = .ok m) : IsMemberOf parts .member node m := by
  unfold readMember? at h
  split at h
  · next hrule =>
    cases h
    exact .inl ⟨hrule, hm⟩
  · next hrule =>
    cases h
    exact .inr (.inl ⟨hrule, hm⟩)
  · next hrule =>
    cases h
    obtain ⟨d, hd, rfl⟩ := map_eq_ok hm
    exact .inr (.inr ⟨hrule, d, hd, rfl⟩)
  · cases h

theorem readMember?_eq_none (h : isMemberNode node = false) : readMember? parts node = none := by
  have hrule : node.rule = .enumEntry ∨ node.rule = .annotationParameter := by
    by_contra hne
    rw [not_or] at hne
    simp [isMemberNode, hne.1, hne.2] at h
  unfold readMember?
  rcases hrule with hrule | hrule
  · rw [hrule]
  · rw [hrule]

/-- The members of a body are read from its member nodes, one from each. -/
theorem isMemberOf_of_readMembers {all : List Member} (h : readMembers parts node = .ok all)
    (hrules : ∀ child ∈ node.children, isMemberNode child → child.rule ∈ memberRules) :
    List.Forall₂ (IsMemberOf parts .member) (node.children.filter isMemberNode) all := by
  unfold readMembers at h
  generalize node.children = children at h hrules
  induction children generalizing all with
  | nil =>
    cases h
    exact .nil
  | cons child children ih =>
    have hrest := fun c hc => hrules c (List.mem_cons_of_mem child hc)
    by_cases hchild : isMemberNode child
    · have hsome : (readMember? parts child).isSome :=
        readMember?_isSome (hrules child List.mem_cons_self hchild)
      obtain ⟨r, hr⟩ := Option.isSome_iff_exists.mp hsome
      rw [List.filterMap_cons_some hr, List.mapM_cons] at h
      obtain ⟨m, hm, h⟩ := bind_eq_ok h
      obtain ⟨ms, hms, h⟩ := bind_eq_ok h
      cases h
      rw [List.filter_cons_of_pos hchild]
      exact .cons (isMemberOf_of_readMember? hr hm) (ih hms hrest)
    · rw [List.filterMap_cons_none (readMember?_eq_none (Bool.eq_false_iff.mpr hchild))] at h
      rw [List.filter_cons_of_neg hchild]
      exact ih h hrest

theorem isMemberOf_of_readSingletonMember {m : Member}
    (h : readSingletonMember parts node = .ok m) : IsMemberOf parts .member node m := by
  unfold readSingletonMember at h
  split at h
  · next hrule => exact .inr (.inl ⟨hrule, h⟩)
  · next hrule =>
    obtain ⟨d, hd, rfl⟩ := map_eq_ok h
    exact .inr (.inr ⟨hrule, d, hd, rfl⟩)
  · cases h

theorem IsMemberOf.isMemberNode {scope : Scope} {m : Member} (h : IsMemberOf parts scope node m) :
    isMemberNode node := by
  unfold Reading.isMemberNode
  rcases h with ⟨hrule, -⟩ | ⟨hrule, -⟩ | ⟨hrule, -⟩ <;> rw [hrule] <;> rfl

/-- Nodes that are all read as members are all member nodes. -/
theorem filter_isMemberNode {scope : Scope} {nodes : List Node} {all : List Member}
    (h : List.Forall₂ (IsMemberOf parts scope) nodes all) :
    nodes.filter isMemberNode = nodes := by
  induction h with
  | nil => rfl
  | cons hm _ ih => rw [List.filter_cons_of_pos hm.isMemberNode, ih]

theorem memberNodes_eq {body : Node} (h : node.child? (bodyRule node.rule) = some body) :
    memberNodes node = body.children.filter isMemberNode := by
  rw [memberNodes, h]

end

theorem kind_bodyRule (rule : Rule) : grammar.kind (bodyRule rule) = .normal := by
  unfold bodyRule
  split <;> rfl

theorem rules_bodyRule (rule : Rule) :
    ∀ r ∈ (grammar.body (bodyRule rule)).rules,
      r ∈ .enumEntry :: .annotationParameter :: memberRules := by
  unfold bodyRule
  split <;> decide

section

variable {text : String} {tree node body : Node} {parts : Readers}

theorem memberNodes_inOrder (htree : grammar.parse .quovaFile text = .ok tree)
    (hnode : Within node tree) :
    (memberNodes node).Pairwise fun m m' => m.span.stop ≤ m'.span.start := by
  unfold memberNodes
  split
  · exact .nil
  · next body hbody =>
    obtain ⟨hmem, hrule⟩ := mem_of_child? hbody
    obtain ⟨c, d, heval⟩ := evaluates_of_within Source.grammar_kind htree (hnode.of_mem hmem)
    have hchildren := evaluates_children heval (by rw [hrule]; exact kind_bodyRule node.rule)
    exact (hchildren.inOrder _ _ rfl).1.filter _

theorem rule_of_child (htree : grammar.parse .quovaFile text = .ok tree)
    (hnode : Within node tree) (hbody : node.child? (bodyRule node.rule) = some body) :
    ∀ child ∈ body.children, child.rule ∈ (grammar.body (bodyRule node.rule)).rules := by
  intro child hchild
  obtain ⟨hmem, hrule⟩ := mem_of_child? hbody
  obtain ⟨c, d, heval⟩ := evaluates_of_within Source.grammar_kind htree (hnode.of_mem hmem)
  have hword := (site_of_evaluates heval).word (by rw [hrule, kind_bodyRule]; decide)
  rw [← hrule]
  exact hword.mem_rules _ (List.mem_map_of_mem hchild)

/-- What stands in a body and is neither an entry nor a parameter is a member. -/
theorem rule_mem_memberRules (htree : grammar.parse .quovaFile text = .ok tree)
    (hnode : Within node tree) (hbody : node.child? (bodyRule node.rule) = some body) :
    ∀ child ∈ body.children, isMemberNode child → child.rule ∈ memberRules := by
  intro child hchild hmember
  have hrule := rules_bodyRule node.rule _ (rule_of_child htree hnode hbody child hchild)
  simp only [isMemberNode, ne_eq, decide_not, Bool.and_eq_true, Bool.not_eq_true',
    decide_eq_false_iff_not] at hmember
  rcases List.mem_cons.mp hrule with hentry | hrule
  · exact absurd hentry hmember.1
  rcases List.mem_cons.mp hrule with hparameter | hrule
  · exact absurd hparameter hmember.2
  exact hrule

/-- The members of a body that is read like that of a class. -/
theorem members_of_readClassBody (htree : grammar.parse .quovaFile text = .ok tree)
    (hnode : Within node tree) {members : Members}
    (h : readClassBody parts (bodyRule node.rule) node = .ok members) :
    ∃ all, List.Forall₂ (IsMemberOf parts .member) (memberNodes node) all ∧
      members = .partition all := by
  obtain ⟨all, hall, rfl⟩ := map_eq_ok h
  refine ⟨all, ?_, rfl⟩
  unfold memberNodes
  split
  · next hnone =>
    rw [listUnder_eq_nil hnone] at hall
    cases hall
    exact .nil
  · next body hbody =>
    rw [listUnder_eq hbody] at hall
    exact isMemberOf_of_readMembers hall (rule_mem_memberRules htree hnode hbody)

theorem members_of_readSingleton (hrule : node.rule = .singletonDeclaration) {kind : TypeKind}
    (h : readSingleton parts node = .ok kind) :
    ∃ supertypes all, List.Forall₂ (IsMemberOf parts .member) (memberNodes node) all ∧
      kind = .singleton supertypes (.singleton all) := by
  obtain ⟨body, hbody, h⟩ := bind_eq_ok h
  obtain ⟨all, hall, h⟩ := bind_eq_ok h
  obtain ⟨supertypes, -, h⟩ := bind_eq_ok h
  cases h
  have hmembers : List.Forall₂ (IsMemberOf parts .member) body.children all :=
    forall₂_of_mapM hall fun _ _ _ => isMemberOf_of_readSingletonMember
  rw [memberNodes_eq (by rw [hrule]; exact child?_of_required hbody),
    filter_isMemberNode hmembers]
  exact ⟨supertypes, all, hmembers, rfl⟩

/-- All that stands in the body of an interface are declarations. -/
theorem members_of_readInterface (htree : grammar.parse .quovaFile text = .ok tree)
    (hnode : Within node tree) (hrule : node.rule = .interfaceDeclaration) {kind : TypeKind}
    (h : readInterface parts node = .ok kind) :
    ∃ typeParameters supertypes all,
      List.Forall₂ (IsMemberOf parts .interface) (memberNodes node) all ∧
      kind = .interface typeParameters supertypes (.partition all) := by
  obtain ⟨declarations, hread, h⟩ := bind_eq_ok h
  obtain ⟨typeParameters, -, h⟩ := bind_eq_ok h
  obtain ⟨supertypes, -, h⟩ := bind_eq_ok h
  cases h
  refine ⟨typeParameters, supertypes, declarations.map .declaration, ?_, rfl⟩
  cases hbody : node.child? .interfaceBody with
  | none =>
    rw [listUnder_eq_nil hbody] at hread
    cases hread
    rw [memberNodes, hrule, bodyRule, hbody]
    exact .nil
  | some body =>
    rw [listUnder_eq hbody] at hread
    have hfound : node.child? (bodyRule node.rule) = some body := by
      rw [hrule]
      exact hbody
    have hdeclaration : ∀ child ∈ body.children, child.rule = .declaration := by
      intro child hchild
      have hchild := rule_of_child htree hnode hfound child hchild
      rw [hrule] at hchild
      exact List.mem_singleton.mp hchild
    have hall : body.childrenOf .declaration = body.children :=
      List.filter_eq_self.mpr fun child hchild => decide_eq_true (hdeclaration child hchild)
    rw [each, hall] at hread
    have hmembers : List.Forall₂ (IsMemberOf parts .interface) body.children
        (declarations.map .declaration) :=
      List.forall₂_map_right_iff.mpr (forall₂_of_mapM hread fun child hchild d hd =>
        .inr (.inr ⟨hdeclaration child hchild, d, hd, rfl⟩))
    rw [memberNodes_eq hfound, filter_isMemberNode hmembers]
    exact hmembers

/-- Whatever the kind of a declaration, its members are those of its body: split by their mark, or
kept together for a singleton. -/
theorem members_of_readTypeKind (htree : grammar.parse .quovaFile text = .ok tree)
    (hnode : Within node tree) {kind : TypeKind} {members : Members}
    (h : readTypeKind parts node = .ok kind) (hmembers : kind.members? = some members) :
    ∃ all, List.Forall₂ (IsMemberOf parts (memberScope kind)) (memberNodes node) all ∧
      members = if kind.isSingleton then .singleton all else .partition all := by
  have hbody {rule : Rule} {ms : Members} (hrule : bodyRule node.rule = rule)
      (hread : readClassBody parts rule node = .ok ms) :
      ∃ all, List.Forall₂ (IsMemberOf parts .member) (memberNodes node) all ∧
        ms = .partition all :=
    members_of_readClassBody htree hnode (hrule ▸ hread)
  -- One case for each rule of a declaration. All readers but those of singletons, interfaces and
  -- constants end with the body of a class.
  unfold readTypeKind at h
  split at h
  · next hrule =>
    obtain ⟨_, -, h⟩ := bind_eq_ok h
    obtain ⟨_, -, h⟩ := bind_eq_ok h
    obtain ⟨_, -, h⟩ := bind_eq_ok h
    obtain ⟨_, -, h⟩ := bind_eq_ok h
    obtain ⟨ms, hread, h⟩ := bind_eq_ok h
    cases h
    cases hmembers
    exact hbody (by rw [hrule]; rfl) hread
  · next hrule =>
    obtain ⟨supertypes, all, hall, rfl⟩ := members_of_readSingleton hrule h
    cases hmembers
    exact ⟨all, hall, rfl⟩
  · next hrule =>
    obtain ⟨_, _, all, hall, rfl⟩ := members_of_readInterface htree hnode hrule h
    cases hmembers
    exact ⟨all, hall, rfl⟩
  · next hrule =>
    obtain ⟨_, -, h⟩ := bind_eq_ok h
    obtain ⟨_, -, h⟩ := bind_eq_ok h
    obtain ⟨_, -, h⟩ := bind_eq_ok h
    obtain ⟨_, -, h⟩ := bind_eq_ok h
    obtain ⟨_, -, h⟩ := bind_eq_ok h
    obtain ⟨ms, hread, h⟩ := bind_eq_ok h
    cases h
    cases hmembers
    exact hbody (by rw [hrule]; rfl) hread
  · obtain ⟨_, -, h⟩ := bind_eq_ok h
    obtain ⟨_, -, h⟩ := bind_eq_ok h
    cases h
    cases hmembers
  · next hrule =>
    obtain ⟨_, -, h⟩ := bind_eq_ok h
    obtain ⟨_, -, h⟩ := bind_eq_ok h
    obtain ⟨_, -, h⟩ := bind_eq_ok h
    obtain ⟨ms, hread, h⟩ := bind_eq_ok h
    cases h
    cases hmembers
    exact hbody (by rw [hrule]; rfl) hread
  · next hrule =>
    obtain ⟨_, -, h⟩ := bind_eq_ok h
    obtain ⟨_, -, h⟩ := bind_eq_ok h
    obtain ⟨ms, hread, h⟩ := bind_eq_ok h
    cases h
    cases hmembers
    exact hbody (by rw [hrule]; rfl) hread
  · next hrule =>
    obtain ⟨_, -, h⟩ := bind_eq_ok h
    obtain ⟨ms, hread, h⟩ := bind_eq_ok h
    cases h
    cases hmembers
    exact hbody (by rw [hrule]; rfl) hread
  · cases h

end

end QuovaKotlin.Reading

namespace QuovaKotlin.Source

open Ast Reading

/-- Wherever a class-like declaration stands in a file, its two lists hold every member of its body
once, split by their mark and in the order of the text, while a singleton keeps them all in the
static list. The text of the declaration has one item for each member of instances and then one
companion object with all static members; a singleton shows its members without one. -/
theorem members_split_and_shown {text : String} {file : SourceFile} {kind : TypeKind}
    {members : Members} (h : parse text = .ok file) (hkind : file.Contains (.typeKind kind))
    (hmembers : kind.members? = some members) :
    ∃ tree all, grammar.parse .quovaFile text = .ok tree ∧ IsBodyOf tree kind all ∧
      (kind.isSingleton = false → members.Splits all ∧ kind.Shows members.items) ∧
      (kind.isSingleton = true → members.instances = [] ∧ members.statics = all ∧
        kind.Shows (all.map (·.kotlin))) := by
  obtain ⟨tree, htree, hfile⟩ := tree_of_parse h
  obtain ⟨height, node, hnode, hread⟩ := origin_of_contains hfile hkind
  obtain ⟨all, hall, heq⟩ := members_of_readTypeKind htree hnode hread hmembers
  refine ⟨tree, all, htree, ⟨height, node, hnode, hread, memberNodes_inOrder htree hnode, hall⟩,
    fun hsingle => ?_, fun hsingle => ?_⟩
  · rw [if_neg (Bool.eq_false_iff.mp hsingle)] at heq
    rw [heq] at hmembers ⊢
    exact ⟨Members.partition_splits all, TypeKind.shows_items hmembers hsingle⟩
  · rw [if_pos hsingle] at heq
    rw [heq] at hmembers ⊢
    have hshows := TypeKind.shows_statics hmembers hsingle rfl
    exact ⟨rfl, rfl, hshows⟩

/-- The tree of `class A { class B { static init {} int y; } }`. -/
def nestedTree : Node :=
  .node .quovaFile ⟨0, 45⟩ [.node .declaration ⟨0, 45⟩ [.node .typeDeclaration ⟨0, 45⟩ [
    .node .classDeclaration ⟨0, 45⟩ [.token .kwClass ⟨0, 5⟩ "class",
      .token .simpleIdentifier ⟨6, 7⟩ "A", .node .classBody ⟨8, 45⟩ [
        .node .declaration ⟨10, 44⟩ [.node .typeDeclaration ⟨10, 44⟩ [
          .node .classDeclaration ⟨10, 43⟩ [.token .kwClass ⟨10, 15⟩ "class",
            .token .simpleIdentifier ⟨16, 17⟩ "B", .node .classBody ⟨18, 43⟩ [
              .node .initBlock ⟨20, 34⟩ [.token .kwStatic ⟨20, 26⟩ "static",
                .token .kwInit ⟨27, 31⟩ "init", .node .block ⟨32, 34⟩ []],
              .node .declaration ⟨35, 41⟩ [.node .propertyDeclaration ⟨35, 41⟩ [
                .node .typeOrVar ⟨35, 39⟩ [.node .typeUse ⟨35, 39⟩ [
                  .node .primitiveType ⟨35, 39⟩ [.token .primitiveTypeNoArray ⟨35, 38⟩ "int"]]],
                .node .property ⟨39, 40⟩ [.token .simpleIdentifier ⟨39, 40⟩ "y"]]]]]]]]]]],
    .node .endOfInput ⟨45, 45⟩ []]

def nestedMembers : Members where
  instances := [.declaration (.property ⟨[], .internalAccess, none, [],
    some ⟨.primitive ⟨.int, false⟩, 0, false⟩, [⟨"y", none, none, none, none⟩]⟩)]
  statics := [.initializer true []]

/-- A class `B` in a class `A`. -/
def nestedKind : TypeKind :=
  .classType ⟨none, false, false⟩ [] none [] nestedMembers

def nestedFile : SourceFile where
  shebang := none
  package := none
  imports := [.standardLibrary, .integerAlias]
  declarations :=
    [.type [] .internalAccess "A" (.classType ⟨none, false, false⟩ [] none []
      ⟨[.declaration (.type [] .internalAccess "B" nestedKind)], []⟩)]

theorem parse_nested :
    parse "class A \x7b class B \x7b static init \x7b\x7d int y; \x7d \x7d" = .ok nestedFile :=
  parse_of_toOption nestedTree (by decide +kernel) rfl

theorem nested_contains : nestedFile.Contains (.typeKind nestedKind) :=
  ⟨_, List.mem_cons_self, .child List.mem_cons_self (.child List.mem_cons_self
    (.child List.mem_cons_self (.child List.mem_cons_self (.self _))))⟩

theorem nested_split_and_shown :
    parse "class A \x7b class B \x7b static init \x7b\x7d int y; \x7d \x7d" = .ok nestedFile ∧
    nestedFile.Contains (.typeKind nestedKind) ∧ nestedKind.members? = some nestedMembers ∧
    ∃ tree all, IsBodyOf tree nestedKind all ∧ nestedMembers.Splits all ∧
      nestedKind.Shows nestedMembers.items := by
  refine ⟨parse_nested, nested_contains, rfl, ?_⟩
  obtain ⟨tree, all, -, hall, hsplit, -⟩ :=
    members_split_and_shown parse_nested nested_contains rfl
  exact ⟨tree, all, hall, hsplit rfl⟩

end QuovaKotlin.Source

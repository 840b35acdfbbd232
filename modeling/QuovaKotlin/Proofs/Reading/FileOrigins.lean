import QuovaKotlin.Proofs.Reading.Origins

/-!
# Where the parts of a file come from

Statements and declarations, and the knot of all readers: every part of a file, at any depth, has
its origin in the file's parse tree.
-/

set_option autoImplicit false

namespace QuovaKotlin.Reading

open Ast Peg
open Peg.ParseTree (Within)
open Source (Rule)

variable {tree : Node} {parts : Readers} (hp : parts.Ground tree)

include hp

theorem ground_suffixes {operand e : Expression} {nodes : List Node}
    (hnodes : ∀ node ∈ nodes, Within node tree) (hoperand : Ground tree (.expression operand))
    (h : readSuffixes parts operand nodes = .ok e) : Ground tree (.expression e) := by
  induction nodes generalizing operand with
  | nil =>
    cases h
    exact hoperand
  | cons node nodes ih =>
    have hnode : Within node tree := hnodes node List.mem_cons_self
    obtain ⟨operator, hoperator, h⟩ := bind_eq_ok h
    refine ih (fun other hother => hnodes other (List.mem_cons_of_mem node hother)) ?_ h
    exact hp.intro hnode trivial (.cons hoperand (.single (ground_suffix hp hnode hoperator)))

theorem grounds_assignable :
    Grounds tree .assignableExpression (readAssignable parts) .expression := by
  intro node hnode _ e h
  unfold readAssignable at h
  split at h
  · cases h
  · next operand suffixes hchildren =>
    have hwithin : ∀ child ∈ operand :: suffixes, Within child tree := by
      intro child hchild
      rw [← hchildren] at hchild
      exact .of_mem hchild hnode
    obtain ⟨first, hfirst, h⟩ := bind_eq_ok h
    exact ground_suffixes hp (fun child hchild => hwithin child (List.mem_cons_of_mem _ hchild))
      (ground_operand hp (hwithin operand List.mem_cons_self) hfirst) h

/-- A statement has its origin where it is read as a whole; its children are grounded here. -/
theorem ground_assignment {node : Node} {s : Statement} (hnode : Within node tree)
    (h : readAssignment parts node = .ok s) : GroundAll tree s.parts := by
  obtain ⟨target, htarget, h⟩ := bind_eq_ok h
  obtain ⟨operator, -, h⟩ := bind_eq_ok h
  obtain ⟨value, hvalue, h⟩ := bind_eq_ok h
  cases h
  exact .cons ((grounds_assignable hp).one hnode htarget)
    (.single (hp.expression.one hnode hvalue))

theorem ground_conditional {node : Node} {s : Statement} (hnode : Within node tree)
    (h : readConditional parts node = .ok s) : GroundAll tree s.parts := by
  unfold readConditional at h
  split at h
  · cases h
  · next consequent others hchildren =>
    have hbodies : ∀ child ∈ consequent :: others,
        Within child tree ∧ child.rule = .statementBody := by
      intro child hchild
      rw [← hchildren] at hchild
      obtain ⟨hmem, hrule⟩ := List.mem_filter.mp hchild
      exact ⟨.of_mem hmem hnode, of_decide_eq_true hrule⟩
    obtain ⟨alternative, halternative, h⟩ := bind_eq_ok h
    obtain ⟨condition, hcondition, h⟩ := bind_eq_ok h
    obtain ⟨yes, hyes, h⟩ := bind_eq_ok h
    cases h
    obtain ⟨hwithin, hrule⟩ := hbodies consequent List.mem_cons_self
    refine .append (.cons (hp.expression.one hnode hcondition)
      (.single (grounds_body hp consequent hwithin hrule yes hyes))) ?_
    cases others with
    | nil =>
      cases halternative
      exact .nil
    | cons other others =>
      obtain ⟨no, hno, rfl⟩ := map_eq_ok halternative
      obtain ⟨hwithin, hrule⟩ := hbodies other (List.mem_cons_of_mem _ List.mem_cons_self)
      exact .single (grounds_body hp other hwithin hrule no hno)

theorem grounds_forVariable : Grounds tree .forVariable (readForVariable parts) .forVariable := by
  intro node hnode _ item h
  obtain ⟨type, -, h⟩ := bind_eq_ok h
  obtain ⟨name, -, h⟩ := bind_eq_ok h
  obtain ⟨value, hvalue, h⟩ := bind_eq_ok h
  cases h
  exact hp.intro hnode trivial (.single (hp.expression.one hnode hvalue))

theorem grounds_simpleStatement :
    Grounds tree .simpleStatement (readSimpleStatement parts) .statement := by
  intro node hnode hrule s h
  have hreading : IsReading parts node (.statement s) := .inr (.inr ⟨hrule, h⟩)
  obtain ⟨inner, hinner, h⟩ := bind_eq_ok h
  have hwithin : Within inner tree := .of_mem (of_first hinner) hnode
  refine hp.intro hnode hreading ?_
  split at h
  · exact ground_assignment hp hwithin h
  · next hrule =>
    obtain ⟨value, hvalue, rfl⟩ := map_eq_ok h
    exact .single (hp.expression inner hwithin hrule value hvalue)
  · cases h

theorem ground_for {node : Node} {s : Statement} (hnode : Within node tree)
    (h : readFor parts node = .ok s) : GroundAll tree s.parts := by
  unfold readFor at h
  split at h
  · next header hheader =>
    have hwithin : Within header tree := .of_mem (mem_of_child? hheader).1 hnode
    obtain ⟨⟨item, source⟩, hsource, h⟩ := bind_eq_ok h
    obtain ⟨body, hbody, h⟩ := bind_eq_ok h
    cases h
    exact .cons (ground_loopHeader hp hwithin hsource)
      (.single ((grounds_body hp).one hnode hbody))
  · obtain ⟨header, hheader, h⟩ := bind_eq_ok h
    have hwithin : Within header tree := .of_mem (of_required hheader).1 hnode
    obtain ⟨initial, hinitial, h⟩ := bind_eq_ok h
    obtain ⟨conditions, hconditions, h⟩ := bind_eq_ok h
    obtain ⟨updates, hupdates, h⟩ := bind_eq_ok h
    obtain ⟨body, hbody, h⟩ := bind_eq_ok h
    cases h
    have hall := (grounds_simpleStatement hp).each hwithin hupdates
    exact .append (.append (.append ((grounds_forVariable hp).each hwithin hinitial)
      (hp.expression.each hwithin hconditions)) hall) (.single ((grounds_body hp).one hnode hbody))

theorem ground_while {node : Node} {s : Statement} (hnode : Within node tree)
    (h : readWhile parts node = .ok s) : GroundAll tree s.parts := by
  obtain ⟨condition, hcondition, h⟩ := bind_eq_ok h
  obtain ⟨body, hbody, h⟩ := bind_eq_ok h
  cases h
  exact .cons (hp.expression.one hnode hcondition) (.single ((grounds_body hp).one hnode hbody))

theorem ground_jump {node : Node} {s : Statement} (hnode : Within node tree)
    (h : readJump parts node = .ok s) : GroundAll tree s.parts := by
  obtain ⟨keyword, -, h⟩ := bind_eq_ok h
  obtain ⟨label, -, h⟩ := bind_eq_ok h
  obtain ⟨value, hvalue, h⟩ := bind_eq_ok h
  have hall := hp.expression.atMostOne hnode hvalue
  split at h
  · cases h
    exact .nil
  · cases h
    exact .nil
  · cases h
    exact hall
  · cases h
  · cases h
    exact hall
  · cases h

theorem ground_labeled {node : Node} {s : Statement} (hnode : Within node tree)
    (h : readLabeled parts node = .ok s) : GroundAll tree s.parts := by
  obtain ⟨label, -, h⟩ := bind_eq_ok h
  obtain ⟨inner, hinner, h⟩ := bind_eq_ok h
  cases h
  exact .single (hp.statement.one hnode hinner)

theorem grounds_statement : Grounds tree .statement (readStatement parts) .statement := by
  intro node hnode hrule s h
  have hreading : IsReading parts node (.statement s) := .inl ⟨hrule, h⟩
  obtain ⟨inner, hinner, h⟩ := bind_eq_ok h
  have hwithin : Within inner tree := .of_mem (of_first hinner) hnode
  refine hp.intro hnode hreading ?_
  split at h
  · exact ground_labeled hp hwithin h
  · next hrule =>
    obtain ⟨d, hd, rfl⟩ := map_eq_ok h
    exact .single (hp.declaration .block inner hwithin hrule d hd)
  · exact ground_conditional hp hwithin h
  · exact ground_for hp hwithin h
  · exact ground_while hp hwithin h
  · exact ground_jump hp hwithin h
  · obtain ⟨statements, hstatements, rfl⟩ := map_eq_ok h
    exact grounds_block hp inner hwithin statements hstatements
  · exact ground_assignment hp hwithin h
  · next hrule =>
    obtain ⟨value, hvalue, rfl⟩ := map_eq_ok h
    exact .single (hp.expression inner hwithin hrule value hvalue)
  · obtain ⟨value, hvalue, rfl⟩ := map_eq_ok h
    exact .single (ground_switch hp hwithin hvalue)
  · obtain ⟨value, hvalue, rfl⟩ := map_eq_ok h
    exact .single (ground_when hp hwithin hvalue)
  · cases h

theorem grounds_functionBody :
    Grounds tree .functionBody (readFunctionBody parts) .functionBody := by
  intro node hnode _ body h
  obtain ⟨block, hblock, h⟩ := bind_eq_ok h
  obtain ⟨value, hvalue, h⟩ := bind_eq_ok h
  have hstatements := (grounds_block hp).atMostOne hnode hblock
  have hexpression := hp.expression.atMostOne hnode hvalue
  cases block with
  | some statements =>
    cases h
    exact hp.intro hnode trivial hstatements
  | none =>
    cases value with
    | some value =>
      cases h
      exact hp.intro hnode trivial hexpression
    | none => cases h

theorem ground_bodyUnder {node : Node} {body : FunctionBody} (hnode : Within node tree)
    (h : readBodyUnder parts node = .ok body) : Ground tree (.functionBody body) := by
  obtain ⟨value, hvalue, h⟩ := bind_eq_ok h
  cases h
  have hall := (grounds_functionBody hp).atMostOne hnode hvalue
  cases value with
  | none => exact hp.intro hnode trivial .nil
  | some body => exact hall.mem List.mem_cons_self

theorem grounds_function (scope : Scope) :
    Grounds tree .functionDeclaration (readFunction parts scope) .function := by
  intro node hnode hrule f h
  have hreading : IsReading parts node (.function f) := ⟨hrule, scope, h⟩
  obtain ⟨modifiers, -, h⟩ := bind_eq_ok h
  obtain ⟨returnType, -, h⟩ := bind_eq_ok h
  obtain ⟨throws, -, h⟩ := bind_eq_ok h
  obtain ⟨body, hbody, h⟩ := bind_eq_ok h
  obtain ⟨annotations, hannotations, h⟩ := bind_eq_ok h
  obtain ⟨visibility, -, h⟩ := bind_eq_ok h
  obtain ⟨inheritance, -, h⟩ := bind_eq_ok h
  obtain ⟨typeParameters, htypeParameters, h⟩ := bind_eq_ok h
  obtain ⟨name, -, h⟩ := bind_eq_ok h
  obtain ⟨parameters, hparameters, h⟩ := bind_eq_ok h
  cases h
  exact hp.intro hnode hreading (.append (.append
    (.append (grounds_annotations hp node hnode _ hannotations)
      (grounds_typeParameters hp node hnode _ htypeParameters))
    ((grounds_parameters hp).one hnode hparameters)) (.single (ground_bodyUnder hp hnode hbody)))

theorem grounds_accessor (rule : Rule) : Grounds tree rule (readAccessor parts) .accessor := by
  intro node hnode _ accessor h
  obtain ⟨annotations, hannotations, h⟩ := bind_eq_ok h
  obtain ⟨body, hbody, h⟩ := bind_eq_ok h
  cases h
  exact hp.intro hnode trivial (.append (grounds_annotations hp node hnode _ hannotations)
    (.single (ground_bodyUnder hp hnode hbody)))

theorem grounds_property : Grounds tree .property (readProperty parts) .property := by
  intro node hnode hrule p h
  have hreading : IsReading parts node (.property p) := ⟨hrule, h⟩
  have hinner (rule : Rule) : Grounds tree rule
      (fun value => one value .expression parts.expression) .expression :=
    fun value hvalue _ e he => hp.expression.one hvalue he
  obtain ⟨value, hvalue, h⟩ := bind_eq_ok h
  obtain ⟨delegate, hdelegate, h⟩ := bind_eq_ok h
  obtain ⟨getter, hgetter, h⟩ := bind_eq_ok h
  obtain ⟨setter, hsetter, h⟩ := bind_eq_ok h
  obtain ⟨name, -, h⟩ := bind_eq_ok h
  cases h
  exact hp.intro hnode hreading (.append (.append (.append ((hinner _).atMostOne hnode hvalue)
    ((hinner _).atMostOne hnode hdelegate)) ((grounds_accessor hp _).atMostOne hnode hgetter))
    ((grounds_accessor hp _).atMostOne hnode hsetter))

theorem grounds_properties (scope : Scope) :
    Grounds tree .propertyDeclaration (readProperties parts scope) .properties := by
  intro node hnode hrule p h
  have hreading : IsReading parts node (.properties p) := ⟨hrule, scope, h⟩
  obtain ⟨modifiers, -, h⟩ := bind_eq_ok h
  obtain ⟨properties, hproperties, h⟩ := bind_eq_ok h
  obtain ⟨annotations, hannotations, h⟩ := bind_eq_ok h
  obtain ⟨visibility, -, h⟩ := bind_eq_ok h
  obtain ⟨inheritance, -, h⟩ := bind_eq_ok h
  obtain ⟨type, -, h⟩ := bind_eq_ok h
  cases h
  exact hp.intro hnode hreading (.append (grounds_annotations hp node hnode _ hannotations)
    ((grounds_property hp).each hnode hproperties))

theorem grounds_delegation :
    Grounds tree .constructorDelegation (readDelegation parts) .delegation := by
  intro node hnode _ delegation h
  obtain ⟨arguments, harguments, h⟩ := bind_eq_ok h
  cases h
  exact hp.intro hnode trivial ((grounds_arguments hp).one hnode harguments)

theorem ground_constructor {node : Node} {m : Member} (hnode : Within node tree)
    (hrule : node.rule = .constructorDeclaration) (h : readConstructor parts node = .ok m) :
    Ground tree (.member m) := by
  have hread := h
  obtain ⟨delegations, hdelegations, h⟩ := bind_eq_ok h
  obtain ⟨body, hbody, h⟩ := bind_eq_ok h
  obtain ⟨annotations, hannotations, h⟩ := bind_eq_ok h
  obtain ⟨visibility, -, h⟩ := bind_eq_ok h
  obtain ⟨parameters, hparameters, h⟩ := bind_eq_ok h
  cases h
  have hstatements := (grounds_block hp).atMostOne hnode hbody
  refine hp.intro hnode ⟨hrule, hread⟩ (.append (.append
    (.append (grounds_annotations hp node hnode _ hannotations)
      ((grounds_parameters hp).one hnode hparameters))
    ((grounds_delegation hp).each hnode hdelegations)) (.single ?_))
  cases body with
  | none => exact hp.intro hnode trivial .nil
  | some statements => exact hp.intro hnode trivial hstatements

theorem ground_initBlock {node : Node} {m : Member} (hnode : Within node tree)
    (h : readInitBlock parts node = .ok m) : Ground tree (.member m) := by
  obtain ⟨body, hbody, h⟩ := bind_eq_ok h
  cases h
  exact hp.intro hnode trivial ((grounds_block hp).one hnode hbody)

theorem ground_memberDeclaration {node : Node} {scope : Scope} {d : Declaration}
    (hnode : Within node tree) (hrule : node.rule = .declaration)
    (h : parts.declaration scope node = .ok d) : Ground tree (.member (.declaration d)) :=
  hp.intro hnode trivial (.single (hp.declaration scope node hnode hrule d h))

theorem grounds_members : GroundsEach tree (readMembers parts) .member := by
  intro node hnode xs h
  refine .of_forall fun m hm => ?_
  obtain ⟨reading, hreading, hm⟩ := of_mapM h m hm
  obtain ⟨child, hmem, hchild⟩ := List.mem_filterMap.mp hreading
  have hwithin : Within child tree := .of_mem hmem hnode
  obtain rfl : reading = .ok m := hm
  unfold readMember? at hchild
  split at hchild
  · next hrule => exact ground_constructor hp hwithin hrule (Option.some.inj hchild)
  · exact ground_initBlock hp hwithin (Option.some.inj hchild)
  · next hrule =>
    obtain ⟨d, hd, rfl⟩ := map_eq_ok (Option.some.inj hchild)
    exact ground_memberDeclaration hp hwithin hrule hd
  · cases hchild

theorem ground_classBody {node : Node} {rule : Rule} {members : Members}
    (hnode : Within node tree) (h : readClassBody parts rule node = .ok members) :
    GroundAll tree members.parts := by
  obtain ⟨all, hall, rfl⟩ := map_eq_ok h
  exact .partition ((grounds_members hp).listUnder hnode hall)

theorem grounds_supertype : Grounds tree .supertype (readSupertype parts) .supertype := by
  intro node hnode _ supertype h
  obtain ⟨arguments, harguments, h⟩ := bind_eq_ok h
  obtain ⟨delegate, hdelegate, h⟩ := bind_eq_ok h
  obtain ⟨type, -, h⟩ := bind_eq_ok h
  have hall := (grounds_arguments hp).atMostOne hnode harguments
  have hvalue := hp.expression.atMostOne hnode hdelegate
  cases arguments with
  | some arguments =>
    cases h
    exact hp.intro hnode trivial hall
  | none =>
    cases delegate with
    | some delegate =>
      cases h
      exact hp.intro hnode trivial hvalue
    | none =>
      cases h
      exact hp.intro hnode trivial .nil

theorem grounds_supertypes : GroundsEach tree (readSupertypes parts) .supertype := by
  intro node hnode xs h
  exact (grounds_supertype hp).each hnode h

theorem ground_class {node : Node} {k : TypeKind} (hnode : Within node tree)
    (h : readClass parts node = .ok k) : GroundAll tree k.parts := by
  obtain ⟨parameters, hparameters, h⟩ := bind_eq_ok h
  obtain ⟨inheritance, -, h⟩ := bind_eq_ok h
  obtain ⟨typeParameters, htypeParameters, h⟩ := bind_eq_ok h
  obtain ⟨supertypes, hsupertypes, h⟩ := bind_eq_ok h
  obtain ⟨members, hmembers, h⟩ := bind_eq_ok h
  cases h
  exact .append (.append (.append (grounds_variantTypeParameters hp node hnode _ htypeParameters)
    ((grounds_parameters hp).atMostOne hnode hparameters))
    (grounds_supertypes hp node hnode _ hsupertypes)) (ground_classBody hp hnode hmembers)

theorem ground_singleton {node : Node} {k : TypeKind} (hnode : Within node tree)
    (h : readSingleton parts node = .ok k) : GroundAll tree k.parts := by
  obtain ⟨body, hbody, h⟩ := bind_eq_ok h
  have hwithin : Within body tree := .of_mem (of_required hbody).1 hnode
  obtain ⟨members, hmembers, h⟩ := bind_eq_ok h
  obtain ⟨supertypes, hsupertypes, h⟩ := bind_eq_ok h
  cases h
  refine .append (grounds_supertypes hp node hnode _ hsupertypes)
    (.append .nil (.of_forall fun m hm => ?_))
  obtain ⟨child, hmem, hchild⟩ := of_mapM hmembers m hm
  have hinner : Within child tree := .of_mem hmem hwithin
  unfold readSingletonMember at hchild
  split at hchild
  · exact ground_initBlock hp hinner hchild
  · next hrule =>
    obtain ⟨d, hd, rfl⟩ := map_eq_ok hchild
    exact ground_memberDeclaration hp hinner hrule hd
  · cases hchild

theorem ground_interface {node : Node} {k : TypeKind} (hnode : Within node tree)
    (h : readInterface parts node = .ok k) : GroundAll tree k.parts := by
  obtain ⟨members, hmembers, h⟩ := bind_eq_ok h
  obtain ⟨typeParameters, htypeParameters, h⟩ := bind_eq_ok h
  obtain ⟨supertypes, -, h⟩ := bind_eq_ok h
  cases h
  refine .append (grounds_variantTypeParameters hp node hnode _ htypeParameters)
    (.partition ?_)
  rw [List.map_map]
  have hmember : Grounds tree .declaration (parts.declaration .interface)
      (Part.member ∘ Member.declaration) :=
    fun child hchild hrule d hd => ground_memberDeclaration hp hchild hrule hd
  have hbody : GroundsEach tree
      (fun body => each body .declaration (parts.declaration .interface))
      (Part.member ∘ Member.declaration) :=
    fun body hbody xs hxs => hmember.each hbody hxs
  exact hbody.listUnder hnode hmembers

theorem grounds_enumEntry : Grounds tree .enumEntry (readEnumEntry parts) .enumEntry := by
  intro node hnode hrule entry h
  have hreading : IsReading parts node (.enumEntry entry) := ⟨hrule, h⟩
  obtain ⟨arguments, harguments, h⟩ := bind_eq_ok h
  obtain ⟨body, hbody, h⟩ := bind_eq_ok h
  obtain ⟨annotations, hannotations, h⟩ := bind_eq_ok h
  obtain ⟨name, -, h⟩ := bind_eq_ok h
  cases h
  exact hp.intro hnode hreading (.append
    (.append (grounds_annotations hp node hnode _ hannotations)
      ((grounds_arguments hp).listUnder hnode harguments))
    ((grounds_members hp).atMostOne hnode hbody))

theorem ground_enumClass {node : Node} {k : TypeKind} (hnode : Within node tree)
    (h : readEnumClass parts node = .ok k) : GroundAll tree k.parts := by
  obtain ⟨body, hbody, h⟩ := bind_eq_ok h
  have hwithin : Within body tree := .of_mem (of_required hbody).1 hnode
  obtain ⟨entries, hentries, h⟩ := bind_eq_ok h
  obtain ⟨parameters, hparameters, h⟩ := bind_eq_ok h
  obtain ⟨typeParameters, htypeParameters, h⟩ := bind_eq_ok h
  obtain ⟨supertypes, hsupertypes, h⟩ := bind_eq_ok h
  obtain ⟨members, hmembers, h⟩ := bind_eq_ok h
  cases h
  exact .append (.append (.append
    (.append (grounds_variantTypeParameters hp node hnode _ htypeParameters)
      ((grounds_parameters hp).atMostOne hnode hparameters))
    (grounds_supertypes hp node hnode _ hsupertypes))
    ((grounds_enumEntry hp).each hwithin hentries)) (ground_classBody hp hnode hmembers)

theorem grounds_constant : Grounds tree .primitiveEnumEntry (readConstant parts) .constant := by
  intro node hnode _ entry h
  unfold readConstant at h
  split at h
  · obtain ⟨name, -, rfl⟩ := map_eq_ok h
    exact hp.intro hnode trivial .nil
  · next mark hmark =>
    obtain ⟨value, hvalue, h⟩ := bind_eq_ok h
    obtain ⟨name, -, h⟩ := bind_eq_ok h
    have hground := hp.expression.one (.of_mem (mem_of_child? hmark).1 hnode) hvalue
    cases h
    refine hp.intro hnode trivial ?_
    show GroundAll tree (constantParts (if _ then _ else _))
    split
    · exact .single hground
    · exact .single hground

theorem ground_constants {node : Node} {k : TypeKind} (hnode : Within node tree)
    (h : readConstants parts node = .ok k) : GroundAll tree k.parts := by
  obtain ⟨entries, hentries, h⟩ := bind_eq_ok h
  obtain ⟨kind, -, h⟩ := bind_eq_ok h
  cases h
  exact (grounds_constant hp).each hnode hentries

theorem ground_record {node : Node} {k : TypeKind} (hnode : Within node tree)
    (h : readRecord parts node = .ok k) : GroundAll tree k.parts := by
  obtain ⟨typeParameters, htypeParameters, h⟩ := bind_eq_ok h
  obtain ⟨parameters, hparameters, h⟩ := bind_eq_ok h
  obtain ⟨supertypes, hsupertypes, h⟩ := bind_eq_ok h
  obtain ⟨members, hmembers, h⟩ := bind_eq_ok h
  cases h
  exact .append (.append (.append (grounds_typeParameters hp node hnode _ htypeParameters)
    ((grounds_parameters hp).one hnode hparameters))
    (grounds_supertypes hp node hnode _ hsupertypes)) (ground_classBody hp hnode hmembers)

theorem ground_inlineClass {node : Node} {k : TypeKind} (hnode : Within node tree)
    (h : readInlineClass parts node = .ok k) : GroundAll tree k.parts := by
  obtain ⟨parameter, hparameter, h⟩ := bind_eq_ok h
  obtain ⟨supertypes, hsupertypes, h⟩ := bind_eq_ok h
  obtain ⟨members, hmembers, h⟩ := bind_eq_ok h
  cases h
  exact .append (.append (.single ((grounds_parameter hp).one hnode hparameter))
    (grounds_supertypes hp node hnode _ hsupertypes)) (ground_classBody hp hnode hmembers)

theorem grounds_annotationParameter :
    Grounds tree .annotationParameter (readAnnotationParameter parts) .parameter := by
  intro node hnode _ p h
  obtain ⟨fallback, hfallback, h⟩ := bind_eq_ok h
  obtain ⟨annotations, hannotations, h⟩ := bind_eq_ok h
  obtain ⟨type, -, h⟩ := bind_eq_ok h
  obtain ⟨name, -, h⟩ := bind_eq_ok h
  cases h
  exact hp.intro hnode trivial (.append (grounds_annotations hp node hnode _ hannotations)
    (hp.expression.atMostOne hnode hfallback))

theorem ground_annotationType {node : Node} {k : TypeKind} (hnode : Within node tree)
    (h : readAnnotationType parts node = .ok k) : GroundAll tree k.parts := by
  obtain ⟨parameters, hparameters, h⟩ := bind_eq_ok h
  obtain ⟨members, hmembers, h⟩ := bind_eq_ok h
  cases h
  have hbody : GroundsEach tree
      (fun body => each body .annotationParameter (readAnnotationParameter parts)) .parameter :=
    fun body hbody xs hxs => (grounds_annotationParameter hp).each hbody hxs
  exact .append (hbody.listUnder hnode hparameters) (ground_classBody hp hnode hmembers)

theorem ground_typeKind {node : Node} {k : TypeKind} (hnode : Within node tree)
    (h : readTypeKind parts node = .ok k) : Ground tree (.typeKind k) := by
  refine hp.intro hnode h ?_
  unfold readTypeKind at h
  split at h
  · exact ground_class hp hnode h
  · exact ground_singleton hp hnode h
  · exact ground_interface hp hnode h
  · exact ground_enumClass hp hnode h
  · exact ground_constants hp hnode h
  · exact ground_record hp hnode h
  · exact ground_inlineClass hp hnode h
  · exact ground_annotationType hp hnode h
  · cases h

theorem ground_typeDeclaration {node : Node} {scope : Scope} {d : Declaration}
    (hnode : Within node tree) (h : readTypeDeclaration parts scope node = .ok d) :
    GroundAll tree d.parts := by
  unfold readTypeDeclaration at h
  split at h
  · cases h
  · next body hbody =>
    have hwithin : Within body tree := .of_mem (List.mem_of_find?_eq_some hbody) hnode
    obtain ⟨kind, hkind, h⟩ := bind_eq_ok h
    obtain ⟨name, -, h⟩ := bind_eq_ok h
    obtain ⟨annotations, hannotations, h⟩ := bind_eq_ok h
    obtain ⟨visibility, -, h⟩ := bind_eq_ok h
    cases h
    exact .append (grounds_annotations hp node hnode _ hannotations)
      (.single (ground_typeKind hp hwithin hkind))

theorem grounds_declaration (scope : Scope) :
    Grounds tree .declaration (readDeclaration parts scope) .declaration := by
  intro node hnode hrule d h
  have hreading : IsReading parts node (.declaration d) := ⟨hrule, scope, h⟩
  obtain ⟨inner, hinner, h⟩ := bind_eq_ok h
  have hwithin : Within inner tree := .of_mem (of_first hinner) hnode
  refine hp.intro hnode hreading ?_
  split at h
  · exact ground_typeDeclaration hp hwithin h
  · next hrule =>
    obtain ⟨f, hf, rfl⟩ := map_eq_ok h
    exact .single (grounds_function hp scope inner hwithin hrule f hf)
  · next hrule =>
    obtain ⟨p, hp', rfl⟩ := map_eq_ok h
    exact .single (grounds_properties hp scope inner hwithin hrule p hp')
  · cases h

theorem Readers.Ground.next : parts.next.Ground tree where
  height := by
    obtain ⟨height, rfl⟩ := hp.height
    exact ⟨height + 1, rfl⟩
  expression := grounds_expression hp
  statement := grounds_statement hp
  declaration := grounds_declaration hp
  conditions := grounds_conditions hp

omit hp

theorem ground_ofHeight (tree : Node) (height : Nat) : (Readers.ofHeight height).Ground tree := by
  induction height with
  | zero =>
    exact ⟨⟨0, rfl⟩, fun _ _ _ _ h => (by cases h), fun _ _ _ _ h => (by cases h),
      fun _ _ _ _ _ h => (by cases h), fun _ _ _ h => (by cases h)⟩
  | succ height ih => exact ih.next

/-- Every part of a file was read from a node of the file's tree. -/
theorem origin_of_contains {tree : Node} {file : SourceFile} {part : Part}
    (h : readFile tree = .ok file) (hpart : file.Contains part) : Origin tree part := by
  obtain ⟨declaration, hmem, hwithin⟩ := hpart
  obtain ⟨package, -, h⟩ := bind_eq_ok h
  obtain ⟨imports, -, h⟩ := bind_eq_ok h
  obtain ⟨declarations, hdeclarations, h⟩ := bind_eq_ok h
  cases h
  have hall := ((ground_ofHeight tree tree.height).declaration .member).each (.self tree)
    hdeclarations
  exact (hall.mem hmem).of_within hwithin

end QuovaKotlin.Reading

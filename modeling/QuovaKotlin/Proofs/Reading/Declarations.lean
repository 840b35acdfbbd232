import QuovaKotlin.Proofs.Reading.Statements
import QuovaKotlin.Reading.Declarations

/-!
# Reading declarations settles

Some bodies are visited twice, first for one kind of member and then for another; between them the
two visits leave nothing out.
-/

set_option autoImplicit false

namespace QuovaKotlin.Reading

open Source (Rule)
open Ast

variable {height : Nat} {rule : Rule} {node : Node} {parts : Readers} (hp : parts.Settle height)

include hp

theorem handles_functionBody : Handles (height + 1) .functionBody (readFunctionBody parts) := by
  intro node h
  have hc : Covers node ([.block] ++ ([.expression] ++ [])) (readFunctionBody parts node) := by
    refine (Covers.atMostOne h (by decide) (handles_block hp).lower).bind fun block hblock =>
      (Covers.atMostOne h (by decide) hp.expression).bind fun value hvalue => ?_
    have hor : ¬ (block = none ∧ value = none) := by
      rw [atMostOne_eq_none hblock, atMostOne_eq_none hvalue]
      rintro ⟨hblock, hvalue⟩
      obtain ⟨child, hchild⟩ := h.child?_of_absent (s := .expression) (by decide) hblock
      rw [hvalue] at hchild
      cases hchild
    cases block with
    | some statements => exact Covers.ok _
    | none =>
      cases value with
      | some value => exact Covers.ok _
      | none => exact absurd ⟨rfl, rfl⟩ hor
  exact hc.settles h (by decide)

theorem covers_bodyUnder (h : Site (height + 1) rule node) (honce : atMostOnce rule .functionBody) :
    Covers node ([.functionBody] ++ []) (readBodyUnder parts node) :=
  (Covers.atMostOne h honce (handles_functionBody hp).lower).bind fun _ _ => .pure _

omit hp in
theorem handles_throwsClause :
    Handles (height + 1) .throwsClause fun clause => each clause .userType readUserType :=
  fun _ h => (Covers.each h handles_userType).settles h (by decide)

theorem handles_function (scope : Scope) :
    Handles (height + 1) .functionDeclaration (readFunction parts scope) := by
  intro node h
  have hmodifier : Handles height .functionModifierKeyword (meaning FunctionModifier.ofKeyword?) :=
    handles_meaning (by decide)
  have hc : Covers node _ (readFunction parts scope node) :=
    (Covers.each h hmodifier).bind fun _ _ =>
      (Covers.atMostOne h (by decide) handles_typeOrVoid.lower).bind fun _ _ =>
        (Covers.listUnder h (by decide) handles_throwsClause.lower).bind fun _ _ =>
          (covers_bodyUnder hp h (by decide)).bind fun _ _ =>
            (covers_annotations hp h).bind fun _ _ =>
              (covers_visibility scope h).bind fun _ _ =>
                (covers_inheritance h).bind fun _ _ =>
                  (covers_typeParameters hp h (by decide)).bind fun _ _ =>
                    (Covers.nameOf h (by decide)).bind fun _ _ =>
                      (Covers.one h (by decide) (handles_parameters hp).lower).bind fun _ _ =>
                        .pure _
  exact hc.settles h (by decide)

theorem covers_accessor (h : Site (height + 1) rule node) (honce : atMostOnce rule .functionBody) :
    Covers node [.annotationUse, .functionBody] (readAccessor parts node) :=
  (covers_annotations hp h).bind fun _ _ =>
    (covers_bodyUnder hp h honce).bind fun _ _ => .pure _

theorem handles_getter : Handles (height + 1) .getter (readAccessor parts) :=
  fun _ h => (covers_accessor hp h (by decide)).settles h (by decide)

theorem handles_setter : Handles (height + 1) .setter (readAccessor parts) :=
  fun _ h => (covers_accessor hp h (by decide)).settles h (by decide)

theorem handles_propertyValue :
    Handles (height + 1) .propertyValue fun value => one value .expression parts.expression :=
  fun _ h => (Covers.one h (by decide) hp.expression).settles h (by decide)

theorem handles_propertyDelegate :
    Handles (height + 1) .propertyDelegate fun value => one value .expression parts.expression :=
  fun _ h => (Covers.one h (by decide) hp.expression).settles h (by decide)

theorem handles_property : Handles (height + 1) .property (readProperty parts) := by
  intro node h
  have hc : Covers node _ (readProperty parts node) :=
    (Covers.atMostOne h (by decide) (handles_propertyValue hp).lower).bind fun _ _ =>
      (Covers.atMostOne h (by decide) (handles_propertyDelegate hp).lower).bind fun _ _ =>
        (Covers.atMostOne h (by decide) (handles_getter hp).lower).bind fun _ _ =>
          (Covers.atMostOne h (by decide) (handles_setter hp).lower).bind fun _ _ =>
            (Covers.nameOf h (by decide)).bind fun _ _ => .pure _
  exact hc.settles h (by decide)

theorem handles_properties (scope : Scope) :
    Handles (height + 1) .propertyDeclaration (readProperties parts scope) := by
  intro node h
  have hmodifier : Handles height .propertyModifierKeyword (meaning PropertyModifier.ofKeyword?) :=
    handles_meaning (by decide)
  have hc : Covers node _ (readProperties parts scope node) :=
    (Covers.each h hmodifier).bind fun _ _ =>
      (Covers.each h (handles_property hp).lower).bind fun _ _ =>
        (covers_annotations hp h).bind fun _ _ =>
          (covers_visibility scope h).bind fun _ _ =>
            (covers_inheritance h).bind fun _ _ =>
              (Covers.one h (by decide) handles_typeOrVar.lower).bind fun _ _ => .pure _
  exact hc.settles h (by decide)

theorem handles_delegation :
    Handles (height + 1) .constructorDelegation (readDelegation parts) := by
  intro node h
  have hc : Covers node _ (readDelegation parts node) :=
    (Covers.one h (by decide) (handles_arguments hp).lower).bind fun _ _ => .pure _
  exact hc.settles h (by decide)

theorem handles_constructor :
    Handles (height + 1) .constructorDeclaration (readConstructor parts) := by
  intro node h
  have hc : Covers node _ (readConstructor parts node) :=
    (Covers.each h (handles_delegation hp).lower).bind fun _ _ =>
      (Covers.atMostOne h (by decide) (handles_block hp).lower).bind fun _ _ =>
        (covers_annotations hp h).bind fun _ _ =>
          (covers_visibility .member h).bind fun _ _ =>
            (Covers.one h (by decide) (handles_parameters hp).lower).bind fun _ _ => .pure _
  exact hc.settles h (by decide)

theorem handles_initBlock : Handles (height + 1) .initBlock (readInitBlock parts) := by
  intro node h
  have hc : Covers node _ (readInitBlock parts node) :=
    (Covers.one h (by decide) (handles_block hp).lower).bind fun _ _ => .pure _
  exact hc.settles h (by decide)

/-- The rules that make members of a class. -/
def memberRules : List Rule :=
  [.constructorDeclaration, .initBlock, .declaration]

theorem settles_member {r : Read Member} (h : Site height rule node)
    (hread : readMember? parts node = some r) :
    rule ∈ memberRules ∧ Settles (Offends node) r := by
  unfold readMember? at hread
  rw [h.rule_eq] at hread
  have hhigh := h.mono (Nat.le_succ _)
  split at hread
  · cases hread
    exact ⟨by decide, handles_constructor hp node hhigh⟩
  · cases hread
    exact ⟨by decide, handles_initBlock hp node hhigh⟩
  · cases hread
    exact ⟨by decide, (hp.declaration .member node h).map _⟩
  · cases hread

omit hp in
theorem readMember?_isSome (hrule : node.rule ∈ memberRules) : (readMember? parts node).isSome := by
  simp only [memberRules, List.mem_cons, List.not_mem_nil, or_false] at hrule
  unfold readMember?
  rcases hrule with hrule | hrule | hrule <;> rw [hrule] <;> rfl

/-- What is no member is passed over. -/
theorem settles_members {nodes : List Node} (h : ∀ n ∈ nodes, Site height n.rule n) :
    Settles (∃ n ∈ nodes, n.rule ∈ memberRules ∧ Offends n)
      ((nodes.filterMap (readMember? parts)).mapM id) := by
  induction nodes with
  | nil => exact (Settles.ok []).congr (by simp)
  | cons n nodes ih =>
    have hrest := ih fun m hm => h m (by simp [hm])
    cases hread : readMember? parts n with
    | none =>
      have hrule : n.rule ∉ memberRules := by
        intro hrule
        have hsome : (readMember? parts n).isSome := readMember?_isSome hrule
        rw [hread] at hsome
        cases hsome
      rw [List.filterMap_cons_none hread]
      exact hrest.congr (by simp [hrule])
    | some r =>
      obtain ⟨hrule, hr⟩ := settles_member hp (h n (by simp)) hread
      rw [List.filterMap_cons_some hread, List.mapM_cons]
      refine (hr.bind fun a _ => hrest.bind fun as _ => Settles.ok (a :: as)).congr ?_
      simp [hrule]

theorem covers_members (h : Site (height + 1) rule node) :
    Covers node memberRules (readMembers parts node) := by
  refine (settles_members hp fun n hn => h.child hn).congr ?_
  simp only [Under]
  grind

theorem handles_classBody : Handles (height + 1) .classBody (readMembers parts) :=
  fun _ h => (covers_members hp h).settles h (by decide)

theorem covers_classBody (h : Site (height + 1) rule node) (honce : atMostOnce rule .classBody) :
    Covers node [.classBody] (readClassBody parts .classBody node) :=
  (Covers.listUnder h honce (handles_classBody hp).lower).map _

theorem handles_supertype : Handles (height + 1) .supertype (readSupertype parts) := by
  intro node h
  have hc : Covers node ([.valueArguments] ++ ([.expression] ++ ([.userType] ++ [])))
      (readSupertype parts node) := by
    refine (Covers.atMostOne h (by decide) (handles_arguments hp).lower).bind fun arguments _ =>
      (Covers.atMostOne h (by decide) hp.expression).bind fun delegate _ =>
        (Covers.one h (by decide) handles_userType).bind fun type _ => ?_
    split <;> exact Covers.ok _
  exact hc.settles h (by decide)

theorem covers_supertypes (h : Site (height + 1) rule node) :
    Covers node [.supertype] (readSupertypes parts node) :=
  Covers.each h (handles_supertype hp).lower

theorem handles_class : Handles (height + 1) .classDeclaration (readClass parts) := by
  intro node h
  have hc : Covers node _ (readClass parts node) :=
    (Covers.atMostOne h (by decide) (handles_parameters hp).lower).bind fun _ _ =>
      (covers_inheritance h).bind fun _ _ =>
        (covers_variantTypeParameters hp h (by decide)).bind fun _ _ =>
          (covers_supertypes hp h).bind fun _ _ =>
            (covers_classBody hp h (by decide)).bind fun _ _ => .pure _
  exact hc.settles h (by decide)

theorem settles_singletonMember (h : Site height rule node)
    (hrule : rule ∈ (Source.grammar.body .singletonBody).rules) :
    Settles (Offends node) (readSingletonMember parts node) := by
  change rule ∈ [.initBlock, .declaration] at hrule
  simp only [List.mem_cons, List.not_mem_nil, or_false] at hrule
  unfold readSingletonMember
  rw [h.rule_eq]
  rcases hrule with rfl | rfl
  · exact handles_initBlock hp node (h.mono (Nat.le_succ _))
  · exact (hp.declaration .member node h).map _

theorem handles_singletonBody :
    Handles (height + 1) .singletonBody fun body =>
      body.children.mapM (readSingletonMember parts) := by
  intro node h
  refine (Settles.mapM fun child hmem => settles_singletonMember hp (h.child hmem)
    ((h.word (by decide)).mem_rules _ (List.mem_map_of_mem hmem))).congr ?_
  rw [h.offends_iff_child (by decide)]

theorem handles_singleton : Handles (height + 1) .singletonDeclaration (readSingleton parts) := by
  intro node h
  obtain ⟨body, hbody⟩ : ∃ body, node.child? .singletonBody = some body :=
    h.child?_some (by decide)
  have hread := (handles_singletonBody hp).lower body (h.found hbody)
  have hc : Covers node [.singletonBody, .supertype] (readSingleton parts node) := by
    simp only [readSingleton, required, hbody, ok_bind]
    exact (Covers.visit h (by decide) hbody hread).bind fun _ _ =>
      (covers_supertypes hp h).bind fun _ _ => .pure _
  exact hc.settles h (by decide)

theorem handles_interfaceBody :
    Handles (height + 1) .interfaceBody fun body =>
      each body .declaration (parts.declaration .interface) :=
  fun _ h => (Covers.each h (hp.declaration .interface)).settles h (by decide)

theorem handles_interface : Handles (height + 1) .interfaceDeclaration (readInterface parts) := by
  intro node h
  have hc : Covers node _ (readInterface parts node) :=
    (Covers.listUnder h (by decide) (handles_interfaceBody hp).lower).bind fun _ _ =>
      (covers_variantTypeParameters hp h (by decide)).bind fun _ _ =>
        (Covers.each h handles_userType).bind fun _ _ => .pure _
  exact hc.settles h (by decide)

theorem handles_enumEntry : Handles (height + 1) .enumEntry (readEnumEntry parts) := by
  intro node h
  have hc : Covers node _ (readEnumEntry parts node) :=
    (Covers.listUnder h (by decide) (handles_arguments hp).lower).bind fun _ _ =>
      (Covers.atMostOne h (by decide) (handles_classBody hp).lower).bind fun _ _ =>
        (covers_annotations hp h).bind fun _ _ =>
          (Covers.nameOf h (by decide)).bind fun _ _ => .pure _
  exact hc.settles h (by decide)

omit hp in
/-- The two visits of an enum body: one for the entries, one for the members. -/
theorem under_enumClassBody {body : Node} (h : Site (height + 1) .enumClassDeclaration node)
    (hbody : node.child? .enumClassBody = some body) :
    Under node .enumClassBody ↔
      Under body .enumEntry ∨ ∃ x ∈ memberRules, Under body x := by
  have hsite := h.found hbody
  have hcovered : (∃ child ∈ body.children, Offends child) ↔
      ∃ x ∈ .enumEntry :: memberRules, Under body x := hsite.exists_under (by decide)
  rw [h.under_iff (by decide) hbody, hsite.offends_iff_child (by decide), hcovered]
  simp

theorem handles_enumClass : Handles (height + 1) .enumClassDeclaration (readEnumClass parts) := by
  intro node h
  obtain ⟨body, hbody⟩ : ∃ body, node.child? .enumClassBody = some body :=
    h.child?_some (by decide)
  have hsite := (h.found hbody).mono (Nat.le_succ _)
  have hc : Covers node [.enumClassBody, .valueParameters, .variantTypeParameters, .supertype]
      (readEnumClass parts node) := by
    simp only [readEnumClass, readClassBody, required, hbody, ok_bind, listUnder_eq hbody]
    refine Settles.congr
      (Settles.bind (Covers.each hsite (handles_enumEntry hp).lower) fun _ _ =>
        Settles.bind (Covers.atMostOne h (by decide) (handles_parameters hp).lower) fun _ _ =>
          Settles.bind (covers_variantTypeParameters hp h (by decide)) fun _ _ =>
            Settles.bind (covers_supertypes hp h) fun _ _ =>
              Settles.bind ((covers_members hp hsite).map _) fun _ _ => Settles.ok _) ?_
    simp only [List.mem_cons, List.not_mem_nil, or_false, exists_eq_or_imp, exists_eq_left,
      under_enumClassBody h hbody]
    grind
  exact hc.settles h (by decide)

theorem handles_enumValue :
    Handles (height + 1) .primitiveEnumValue fun mark => one mark .expression parts.expression :=
  fun _ h => (Covers.one h (by decide) hp.expression).settles h (by decide)

theorem handles_constant : Handles (height + 1) .primitiveEnumEntry (readConstant parts) := by
  intro node h
  have hname : Covers node [] (nameOf node) := Covers.nameOf h (by decide)
  have hc : Covers node [.primitiveEnumValue] (readConstant parts node) := by
    unfold readConstant
    cases hmark : node.child? .primitiveEnumValue with
    | none => exact (hname.map ConstantEntry.implicit).skip (not_under_of_child?_none hmark)
    | some mark =>
      have hread := (handles_enumValue hp).lower mark (h.found hmark)
      exact (Covers.visit h (by decide) hmark hread).bind fun _ _ =>
        hname.bind fun _ _ => .pure _
  exact hc.settles h (by decide)

theorem handles_constants :
    Handles (height + 1) .primitiveEnumDeclaration (readConstants parts) := by
  intro node h
  have hc : Covers node _ (readConstants parts node) :=
    (Covers.each h (handles_constant hp).lower).bind fun _ _ =>
      (Covers.one h (by decide) handles_primitiveKind).bind fun _ _ => .pure _
  exact hc.settles h (by decide)

theorem handles_record : Handles (height + 1) .recordDeclaration (readRecord parts) := by
  intro node h
  have hc : Covers node _ (readRecord parts node) :=
    (covers_typeParameters hp h (by decide)).bind fun _ _ =>
      (Covers.one h (by decide) (handles_parameters hp).lower).bind fun _ _ =>
        (covers_supertypes hp h).bind fun _ _ =>
          (covers_classBody hp h (by decide)).bind fun _ _ => .pure _
  exact hc.settles h (by decide)

theorem handles_inlineClass :
    Handles (height + 1) .inlineClassDeclaration (readInlineClass parts) := by
  intro node h
  have hc : Covers node _ (readInlineClass parts node) :=
    (Covers.one h (by decide) (handles_parameter hp).lower).bind fun _ _ =>
      (covers_supertypes hp h).bind fun _ _ =>
        (covers_classBody hp h (by decide)).bind fun _ _ => .pure _
  exact hc.settles h (by decide)

theorem handles_annotationParameter :
    Handles (height + 1) .annotationParameter (readAnnotationParameter parts) := by
  intro node h
  have hc : Covers node _ (readAnnotationParameter parts node) :=
    (Covers.atMostOne h (by decide) hp.expression).bind fun _ _ =>
      (covers_annotations hp h).bind fun _ _ =>
        (Covers.one h (by decide) handles_type).bind fun _ _ =>
          (Covers.nameOf h (by decide)).bind fun _ _ => .pure _
  exact hc.settles h (by decide)

theorem handles_annotationType :
    Handles (height + 1) .annotationDeclaration (readAnnotationType parts) := by
  intro node h
  have hc : Covers node [.annotationBody] (readAnnotationType parts node) := by
    unfold readAnnotationType readClassBody
    cases hbody : node.child? .annotationBody with
    | none =>
      simp only [listUnder_eq_nil hbody]
      exact (Covers.ok _).skip (not_under_of_child?_none hbody)
    | some body =>
      have hsite := (h.found hbody).mono (Nat.le_succ _)
      have hread : Covers body _ _ :=
        (Covers.each hsite (handles_annotationParameter hp).lower).bind fun parameters _ =>
          ((covers_members hp hsite).map Members.partition).bind fun members _ =>
            .pure (TypeKind.annotationType parameters members)
      simp only [listUnder_eq hbody]
      exact Covers.visit h (by decide) hbody (hread.settles hsite (by decide))
  exact hc.settles h (by decide)

/-- The rules that make types. -/
def typeRules : List Rule :=
  [.classDeclaration, .singletonDeclaration, .interfaceDeclaration, .enumClassDeclaration,
    .primitiveEnumDeclaration, .recordDeclaration, .inlineClassDeclaration, .annotationDeclaration]

theorem settles_typeKind (h : Site (height + 1) rule node) (hrule : rule ∈ typeRules) :
    Settles (Offends node) (readTypeKind parts node) := by
  simp only [typeRules, List.mem_cons, List.not_mem_nil, or_false] at hrule
  unfold readTypeKind
  rw [h.rule_eq]
  rcases hrule with rfl | rfl | rfl | rfl | rfl | rfl | rfl | rfl
  · exact handles_class hp node h
  · exact handles_singleton hp node h
  · exact handles_interface hp node h
  · exact handles_enumClass hp node h
  · exact handles_constants hp node h
  · exact handles_record hp node h
  · exact handles_inlineClass hp node h
  · exact handles_annotationType hp node h

omit hp in
theorem settles_typeName (h : Site (height + 1) rule node) (hrule : rule ∈ typeRules) :
    Settles False (nameOf node) := by
  have hname : ∀ r ∈ typeRules, always r (· = .simpleIdentifier) := by decide
  exact (Covers.nameOf h (hname rule hrule)).congr (by simp)

omit hp in
/-- A type declaration has one child that is no modifier, and it makes the type. -/
theorem exists_typeBody (h : Site height .typeDeclaration node) :
    ∃ body ∈ node.children, node.children.find? (! isTypeModifier ·) = some body ∧
      body.rule ∈ typeRules ∧ (Offends node ↔ Offends body ∨ Under node .annotationUse) := by
  have hplain : ∀ r ∈ typeRules, r ≠ .annotationUse ∧ r ≠ .visibilityModifier := by decide
  have hkinds : ∀ r ∈ (Source.grammar.body .typeDeclaration).rules,
      r = .annotationUse ∨ r = .visibilityModifier ∨ r ∈ typeRules := by decide
  have hkind (child : Node) (hmem : child ∈ node.children) :=
    hkinds child.rule ((h.word (by decide)).mem_rules _ (List.mem_map_of_mem hmem))
  obtain ⟨r, hr, child, hchild⟩ := h.child?_of_always typeRules (by decide)
  obtain ⟨hmem, rfl⟩ := mem_of_child? hchild
  obtain ⟨body, hbody⟩ : ∃ body, node.children.find? (! isTypeModifier ·) = some body := by
    rw [← Option.isSome_iff_exists, List.find?_isSome]
    exact ⟨child, hmem, by simp [isTypeModifier, hplain _ hr]⟩
  have hmem' := List.mem_of_find?_eq_some hbody
  have hnot : ¬ isTypeModifier body := by simpa using List.find?_some hbody
  simp only [isTypeModifier, Bool.or_eq_true, decide_eq_true_eq, not_or] at hnot
  have hrule : body.rule ∈ typeRules := by
    rcases hkind body hmem' with hk | hk | hk
    · exact absurd hk hnot.1
    · exact absurd hk hnot.2
    · exact hk
  refine ⟨body, hmem', hbody, hrule, ?_⟩
  rw [h.offends_iff_child (by decide)]
  constructor
  · rintro ⟨other, hother, hoff⟩
    rcases hkind other hother with hk | hk | hk
    · exact .inr ⟨other, hother, hk, hoff⟩
    · exact absurd hoff (not_offends_of_inert (h.made.children other hother) (by rw [hk]; decide))
    · have heq : other = body := h.eq_of_never (a := typeRules.contains) (b := typeRules.contains)
        (by decide) hother hmem' (List.contains_iff_mem.mpr hk) (List.contains_iff_mem.mpr hrule)
      exact .inl (heq ▸ hoff)
  · rintro (hoff | ⟨other, hother, -, hoff⟩)
    · exact ⟨body, hmem', hoff⟩
    · exact ⟨other, hother, hoff⟩

theorem handles_typeDeclaration (scope : Scope) :
    Handles (height + 1) .typeDeclaration (readTypeDeclaration parts scope) := by
  intro node h
  obtain ⟨body, hmem, hbody, hrule, hoff⟩ := exists_typeBody h
  have hsite := (h.child hmem).mono (Nat.le_succ _)
  simp only [readTypeDeclaration, hbody]
  refine Settles.congr
    (Settles.bind (settles_typeKind hp hsite hrule) fun _ _ =>
      Settles.bind (settles_typeName hsite hrule) fun _ _ =>
        Settles.bind (covers_annotations hp h) fun _ _ =>
          Settles.bind (covers_visibility scope h) fun _ _ => Settles.ok _) ?_
  simp [hoff]

theorem handles_declaration (scope : Scope) :
    Handles (height + 1) .declaration (readDeclaration parts scope) := by
  intro node h
  obtain ⟨child, hchildren, hrule, hoff⟩ := h.only_child (by decide)
  have hchild := (h.child (hchildren ▸ List.mem_cons_self)).mono (Nat.le_succ _)
  change child.rule ∈ [.typeDeclaration, .functionDeclaration, .propertyDeclaration] at hrule
  simp only [List.mem_cons, List.not_mem_nil, or_false] at hrule
  refine Settles.congr ?_ hoff.symm
  simp only [readDeclaration, first, hchildren, ok_bind]
  rcases hrule with hrule | hrule | hrule <;> rw [hrule] at hchild ⊢
  · exact handles_typeDeclaration hp scope child hchild
  · exact (handles_function hp scope child hchild).map _
  · exact (handles_properties hp scope child hchild).map _

end QuovaKotlin.Reading

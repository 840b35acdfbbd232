import QuovaKotlin.Proofs.Reading.Alike

/-!
# Reading files at another place

The parts of an operator expression are grouped alike if they are alike, so expressions are carried
over, and with them statements, declarations and members. Readers of a greater height read what
those of a smaller one do.
-/

set_option autoImplicit false

namespace QuovaKotlin.Precedence

variable {σ τ : Type}

def Grouping.map (f : σ → τ) : Grouping σ → Grouping τ
  | .leaf item => .leaf (f item)
  | .before operator operand => .before (f operator) (operand.map f)
  | .behind operand operator => .behind (operand.map f) (f operator)
  | .between left operator right => .between (left.map f) (f operator) (right.map f)

def Waiting.map (f : σ → τ) : Waiting σ → Waiting τ
  | .before binding operator => .before binding (f operator)
  | .between binding left operator => .between binding (left.map f) (f operator)

variable (f : σ → τ)

theorem Waiting.binding_map (w : Waiting σ) : (w.map f).binding = w.binding := by
  cases w <;> rfl

theorem Waiting.complete_map (w : Waiting σ) (g : Grouping σ) :
    (w.map f).complete (g.map f) = (w.complete g).map f := by
  cases w <;> rfl

theorem settle_map (power : Nat) (waiting : List (Waiting σ)) (g : Grouping σ) :
    settle power (waiting.map (.map f)) (g.map f) =
      ((settle power waiting g).1.map (.map f), (settle power waiting g).2.map f) := by
  induction waiting generalizing g with
  | nil => rfl
  | cons w waiting ih =>
    rw [List.map_cons, settle, settle, w.binding_map, w.complete_map]
    split
    · exact ih _
    · rfl

theorem settleAll_map (waiting : List (Waiting σ)) (g : Grouping σ) :
    settleAll (waiting.map (.map f)) (g.map f) = (settleAll waiting g).map f := by
  induction waiting generalizing g with
  | nil => rfl
  | cons w waiting ih =>
    rw [List.map_cons, settleAll, settleAll, w.complete_map]
    exact ih _

/-- Both states of the run at once: the states hand the items on to each other. -/
theorem run_map (role : τ → Role) (items : List σ) :
    (∀ waiting, atOperand role (waiting.map (.map f)) (items.map f) =
      (atOperand (fun item => role (f item)) waiting items).map (.map f)) ∧
    ∀ waiting g, atOperator role (waiting.map (.map f)) (g.map f) (items.map f) =
      (atOperator (fun item => role (f item)) waiting g items).map (.map f) := by
  induction items with
  | nil =>
    refine ⟨fun _ => rfl, fun waiting g => ?_⟩
    rw [List.map_nil, atOperator, atOperator, settleAll_map]
    rfl
  | cons item items ih =>
    constructor
    · intro waiting
      rw [List.map_cons, atOperand, atOperand]
      split
      · exact ih.2 waiting (.leaf item)
      · exact ih.1 (.before _ item :: waiting)
      · rfl
    · intro waiting g
      rw [List.map_cons, atOperator, atOperator]
      split
      · rw [settle_map]
        exact ih.2 _ (.behind _ item)
      · rw [settle_map]
        exact ih.1 (.between _ _ item :: _)
      · rw [settle_map]
        exact ih.1 (.between _ _ item :: _)
      · rfl

/-- What the items are does not matter for their grouping, only their roles do. -/
theorem group_map (role : τ → Role) (items : List σ) :
    group role (items.map f) = (group (fun item => role (f item)) items).map (.map f) :=
  (run_map f role items).1 []

end QuovaKotlin.Precedence

namespace QuovaKotlin.Reading

open Ast Peg
open Peg.ParseTree (Alike)
open Precedence (Grouping)
open Source (Rule)

theorem group_alike {s t : Node} {g : Grouping Node} (hst : Alike s t)
    (hg : Precedence.group (fun item => roleOf item.rule) s.children = some g) :
    ∃ g', Precedence.group (fun item => roleOf item.rule) t.children = some g' ∧
      g.map ParseTree.erase = g'.map ParseTree.erase := by
  have herased : ∀ items : List Node,
      Precedence.group (fun item : Node => roleOf item.rule) (items.map ParseTree.erase) =
        (Precedence.group (fun item : Node => roleOf item.rule) items).map
          (.map ParseTree.erase) := by
    intro items
    rw [Precedence.group_map]
    simp only [ParseTree.rule_erase]
  have hsame := herased t.children
  rw [← hst.children_eq, herased, hg] at hsame
  obtain ⟨g', hg', hmap⟩ := Option.map_eq_some_iff.mp hsame.symm
  exact ⟨g', hg', hmap.symm⟩

section

variable {parts parts' : Readers} (hp : parts.Carries parts')

include hp

theorem carries_grouping {g g' : Grouping Node} {e : Expression}
    (hmap : g.map ParseTree.erase = g'.map ParseTree.erase)
    (h : readGrouping parts g = .ok e) : readGrouping parts' g' = .ok e := by
  induction g generalizing g' e with
  | leaf node =>
    cases g' with
    | leaf node' =>
      injection hmap with hnode
      exact carries_operand hp hnode h
    | _ => injection hmap
  | before operator operand ih =>
    cases g' with
    | before operator' operand' =>
      injection hmap with hoperator hoperand
      obtain ⟨x, hx, h⟩ := bind_eq_ok h
      rw [readGrouping, ih hoperand hx]
      exact carries_prefixed x hoperator h
    | _ => injection hmap
  | behind operand operator ih =>
    cases g' with
    | behind operand' operator' =>
      injection hmap with hoperand hoperator
      obtain ⟨x, hx, h⟩ := bind_eq_ok h
      rw [readGrouping, ih hoperand hx]
      exact carries_suffixed hp x hoperator h
    | _ => injection hmap
  | between left operator right ihleft ihright =>
    cases g' with
    | between left' operator' right' =>
      injection hmap with hleft hoperator hright
      obtain ⟨x, hx, h⟩ := bind_eq_ok h
      obtain ⟨y, hy, h⟩ := bind_eq_ok h
      rw [readGrouping, ihleft hleft hx, ok_bind, ihright hright hy]
      exact carries_infix hp x y hoperator h
    | _ => injection hmap

theorem carries_operatorExpression :
    Carries (readOperatorExpression parts) (readOperatorExpression parts') := by
  intro s t x hst hx
  unfold readOperatorExpression at hx ⊢
  split at hx
  · next g hg =>
    obtain ⟨g', hg', hmap⟩ := group_alike hst hg
    rw [hg']
    exact carries_grouping hp hmap hx
  · cases hx

theorem carries_expression : Carries (readExpression parts) (readExpression parts') := by
  apply (carries_operatorExpression hp).one.bind
  intro mapping s t x hst hx
  dsimp only at hx ⊢
  rcases hst.child? .forSuffix with ⟨hs, ht⟩ | ⟨a, b, hs, ht, hab⟩
  · rw [hs] at hx
    rw [ht]
    exact hx
  · rw [hs] at hx
    rw [ht]
    obtain ⟨condition, hcondition, hx⟩ := bind_eq_ok hx
    have hcondition' : atMostOne b .expression parts'.expression = .ok condition :=
      hp.expression.atMostOne hab hcondition
    dsimp only
    rw [hcondition']
    exact (carries_loopHeader hp).one.andThen hab hx

theorem carries_suffixes {ss ts : List Node} (h : List.Forall₂ Alike ss ts) {operand e : Expression}
    (he : readSuffixes parts operand ss = .ok e) : readSuffixes parts' operand ts = .ok e := by
  induction h generalizing operand with
  | nil => exact he
  | cons hab _ ih =>
    obtain ⟨operator, hoperator, he⟩ := bind_eq_ok he
    rw [readSuffixes, carries_postfixOperator hp hab hoperator]
    exact ih he

theorem carries_assignable : Carries (readAssignable parts) (readAssignable parts') := by
  intro s t x hst hx
  unfold readAssignable at hx ⊢
  have hchildren := hst.children
  split at hx
  · cases hx
  · next operand suffixes hs =>
    rw [hs] at hchildren
    obtain ⟨operand', suffixes', hoperand, hsuffixes, ht⟩ :=
      List.forall₂_cons_left_iff.mp hchildren
    rw [ht]
    obtain ⟨y, hy, hx⟩ := bind_eq_ok hx
    show readOperand parts' operand' >>= _ = _
    rw [carries_operand hp hoperand hy]
    exact carries_suffixes hp hsuffixes hx

theorem carries_assignment : Carries (readAssignment parts) (readAssignment parts') :=
  (carries_assignable hp).one.bind fun _ => Carries.meaning.one.bind fun _ =>
    hp.expression.one.bind fun _ => .const

theorem carries_conditional : Carries (readConditional parts) (readConditional parts') := by
  intro s t x hst hx
  unfold readConditional at hx ⊢
  have hchildren := hst.childrenOf .statementBody
  split at hx
  · cases hx
  · next consequent others hs =>
    rw [hs] at hchildren
    obtain ⟨consequent', others', hconsequent, hothers, ht⟩ :=
      List.forall₂_cons_left_iff.mp hchildren
    rw [ht]
    obtain ⟨alternative, halternative, hx⟩ := bind_eq_ok hx
    obtain ⟨condition, hcondition, hx⟩ := bind_eq_ok hx
    obtain ⟨body, hbody, hx⟩ := bind_eq_ok hx
    have halternative' : others'.head?.mapM (readBody parts') = .ok alternative := by
      cases hothers with
      | nil => exact halternative
      | cons hab _ => exact (carries_body hp).map .const hab halternative
    have hcondition' : one t .expression parts'.expression = .ok condition :=
      hp.expression.one hst hcondition
    dsimp only
    rw [halternative', ok_bind, hcondition', ok_bind, carries_body hp hconsequent hbody]
    exact hx

theorem carries_forVariable : Carries (readForVariable parts) (readForVariable parts') :=
  carries_declaredType.bind fun _ => .bind .textOf fun _ =>
    hp.expression.one.bind fun _ => .const

theorem carries_simpleStatement :
    Carries (readSimpleStatement parts) (readSimpleStatement parts') := by
  apply Carries.first
  intro _ _ _ s t x hst hx
  dsimp only at hx ⊢
  rw [← hst.rule_eq]
  generalize s.rule = rule at hx ⊢
  split at hx
  · exact carries_assignment hp hst hx
  · exact hp.expression.map .const hst hx
  · cases hx

theorem carries_for : Carries (readFor parts) (readFor parts') := by
  apply Carries.onChild
  · intro s t hst
    apply (carries_loopHeader hp).bind
    intro header a b x _ hx
    exact (carries_body hp).one.andThen hst hx
  · apply Carries.required
    intro s t hst
    apply (carries_forVariable hp).each.bind
    intro initial
    apply hp.expression.each.bind
    intro conditions
    apply (carries_simpleStatement hp).each.bind
    intro updates a b x _ hx
    exact (carries_body hp).one.andThen hst hx

theorem carries_while : Carries (readWhile parts) (readWhile parts') :=
  hp.expression.one.bind fun _ => (carries_body hp).one.bind fun _ => .pure fun _ _ h => by
    rw [h.has]

theorem carries_jump : Carries (readJump parts) (readJump parts') := by
  apply Carries.first
  intro s t hst a b x hab hx
  obtain ⟨label, hlabel, hx⟩ := bind_eq_ok hx
  obtain ⟨value, hvalue, hx⟩ := bind_eq_ok hx
  have hlabel' : atMostOne t .jumpLabel nameOf = .ok label := Carries.textOf.atMostOne hst hlabel
  have hvalue' : atMostOne t .expression parts'.expression = .ok value :=
    hp.expression.atMostOne hst hvalue
  dsimp only at hx ⊢
  rw [hlabel', ok_bind, hvalue', ok_bind, ← hab.rule_eq]
  generalize a.rule = rule at hx ⊢
  split at hx
  · exact hx
  · exact hx
  · exact hx
  · cases hx
  · exact hx
  · cases hx

theorem carries_labeled : Carries (readLabeled parts) (readLabeled parts') :=
  .bind .textOf fun _ => hp.statement.one.bind fun _ => .const

theorem carries_statement : Carries (readStatement parts) (readStatement parts') := by
  apply Carries.first
  intro _ _ _ s t x hst hx
  dsimp only at hx ⊢
  rw [← hst.rule_eq]
  generalize s.rule = rule at hx ⊢
  split at hx
  · exact carries_labeled hp hst hx
  · exact (hp.declaration _).map .const hst hx
  · exact carries_conditional hp hst hx
  · exact carries_for hp hst hx
  · exact carries_while hp hst hx
  · exact carries_jump hp hst hx
  · exact (carries_block hp).map .const hst hx
  · exact carries_assignment hp hst hx
  · exact hp.expression.map .const hst hx
  · exact (carries_switch hp).map .const hst hx
  · exact (carries_when hp).map .const hst hx
  · cases hx

theorem carries_functionBody : Carries (readFunctionBody parts) (readFunctionBody parts') := by
  apply (carries_block hp).atMostOne.bind
  intro block
  apply hp.expression.atMostOne.bind
  intro value s t x _ hx
  dsimp only at hx ⊢
  generalize firstPresent block value = body at hx ⊢
  split at hx
  · exact hx
  · exact hx
  · cases hx

theorem carries_bodyUnder : Carries (readBodyUnder parts) (readBodyUnder parts') :=
  (carries_functionBody hp).atMostOne.bind fun _ => .const

theorem carries_function (scope : Scope) :
    Carries (readFunction parts scope) (readFunction parts' scope) :=
  Carries.meaning.each.bind fun _ => carries_typeOrVoid.atMostOne.bind fun _ =>
    carries_userType.each.listUnder.bind fun _ => (carries_bodyUnder hp).bind fun _ =>
    (carries_annotations hp).bind fun _ => (carries_visibility scope).bind fun _ =>
    carries_inheritance.bind fun _ => (carries_typeParameters hp).bind fun _ =>
    .bind .textOf fun _ => (carries_parameters hp).one.bind fun _ => .const

theorem carries_accessor : Carries (readAccessor parts) (readAccessor parts') :=
  (carries_annotations hp).bind fun _ => (carries_bodyUnder hp).bind fun _ =>
    .pure fun _ _ h => by rw [textOf?_eq h]

theorem carries_property : Carries (readProperty parts) (readProperty parts') :=
  hp.expression.one.atMostOne.bind fun _ => hp.expression.one.atMostOne.bind fun _ =>
    (carries_accessor hp).atMostOne.bind fun _ => (carries_accessor hp).atMostOne.bind fun _ =>
    .bind .textOf fun _ => .const

theorem carries_properties (scope : Scope) :
    Carries (readProperties parts scope) (readProperties parts' scope) :=
  Carries.meaning.each.bind fun _ => (carries_property hp).each.bind fun _ =>
    (carries_annotations hp).bind fun _ => (carries_visibility scope).bind fun _ =>
    carries_inheritance.bind fun _ => carries_typeOrVar.one.bind fun _ => .const

theorem carries_delegation : Carries (readDelegation parts) (readDelegation parts') :=
  (carries_arguments hp).one.bind fun _ => .pure fun _ _ h => by rw [h.has]

theorem carries_constructor : Carries (readConstructor parts) (readConstructor parts') :=
  (carries_delegation hp).each.bind fun _ => (carries_block hp).atMostOne.bind fun _ =>
    (carries_annotations hp).bind fun _ => (carries_visibility .member).bind fun _ =>
    (carries_parameters hp).one.bind fun _ => .const

theorem carries_initBlock : Carries (readInitBlock parts) (readInitBlock parts') :=
  (carries_block hp).one.bind fun _ => .pure fun _ _ h => by rw [h.has]

/-- A tree is a member, or is none, wherever it stands. -/
theorem carries_member? {s t : Node} (hst : Alike s t) :
    readMember? parts s = none ∧ readMember? parts' t = none ∨
      ∃ r r', readMember? parts s = some r ∧ readMember? parts' t = some r' ∧
        ∀ m, r = .ok m → r' = .ok m := by
  unfold readMember?
  rw [← hst.rule_eq]
  generalize s.rule = rule
  split
  · exact .inr ⟨_, _, rfl, rfl, fun _ h => carries_constructor hp hst h⟩
  · exact .inr ⟨_, _, rfl, rfl, fun _ h => carries_initBlock hp hst h⟩
  · exact .inr ⟨_, _, rfl, rfl, fun _ h => (hp.declaration .member).map .const hst h⟩
  · exact .inl ⟨rfl, rfl⟩

theorem carries_members : Carries (readMembers parts) (readMembers parts') := by
  intro s t xs hst hxs
  unfold readMembers at hxs ⊢
  have hchildren := hst.children
  generalize s.children = ss at hxs hchildren
  generalize t.children = ts at hchildren ⊢
  induction hchildren generalizing xs with
  | nil => exact hxs
  | @cons a b ss ts hab _ ih =>
    rcases carries_member? hp hab with ⟨ha, hb⟩ | ⟨r, r', ha, hb, hr⟩
    · rw [List.filterMap_cons_none ha] at hxs
      rw [List.filterMap_cons_none hb]
      exact ih hxs
    · rw [List.filterMap_cons_some ha, List.mapM_cons] at hxs
      rw [List.filterMap_cons_some hb, List.mapM_cons]
      obtain ⟨m, hm, hxs⟩ := bind_eq_ok hxs
      obtain ⟨ms, hms, hxs⟩ := bind_eq_ok hxs
      rw [id, hr m hm, ok_bind, ih hms]
      exact hxs

theorem carries_classBody (rule : Rule) :
    Carries (readClassBody parts rule) (readClassBody parts' rule) :=
  (carries_members hp).listUnder.map .const

theorem carries_supertype : Carries (readSupertype parts) (readSupertype parts') :=
  (carries_arguments hp).atMostOne.bind fun _ => hp.expression.atMostOne.bind fun _ =>
    carries_userType.one.bind fun _ => .const

theorem carries_supertypes : Carries (readSupertypes parts) (readSupertypes parts') :=
  (carries_supertype hp).each

theorem carries_class : Carries (readClass parts) (readClass parts') :=
  (carries_parameters hp).atMostOne.bind fun _ => carries_inheritance.bind fun _ =>
    (carries_variantTypeParameters hp).bind fun _ => (carries_supertypes hp).bind fun _ =>
    (carries_classBody hp .classBody).bind fun _ => .pure fun _ _ h => by rw [h.has, h.has]

theorem carries_singletonMember :
    Carries (readSingletonMember parts) (readSingletonMember parts') := by
  intro s t x hst hx
  unfold readSingletonMember at hx ⊢
  rw [← hst.rule_eq]
  generalize s.rule = rule at hx ⊢
  split at hx
  · exact carries_initBlock hp hst hx
  · exact (hp.declaration .member).map .const hst hx
  · cases hx

theorem carries_singleton : Carries (readSingleton parts) (readSingleton parts') := by
  apply Carries.required
  intro s t hst a b x hab hx
  obtain ⟨members, hmembers, hx⟩ := bind_eq_ok hx
  dsimp only
  rw [(carries_singletonMember hp).mapM hab.children hmembers]
  exact (carries_supertypes hp).andThen hst hx

theorem carries_interface : Carries (readInterface parts) (readInterface parts') :=
  (hp.declaration .interface).each.listUnder.bind fun _ =>
    (carries_variantTypeParameters hp).bind fun _ => carries_userType.each.bind fun _ => .const

theorem carries_enumEntry : Carries (readEnumEntry parts) (readEnumEntry parts') :=
  (carries_arguments hp).listUnder.bind fun _ => (carries_members hp).atMostOne.bind fun _ =>
    (carries_annotations hp).bind fun _ => .bind .textOf fun _ => .const

theorem carries_enumClass : Carries (readEnumClass parts) (readEnumClass parts') := by
  apply Carries.required
  intro s t hst a b x hab hx
  obtain ⟨entries, hentries, hx⟩ := bind_eq_ok hx
  obtain ⟨parameters, hparameters, hx⟩ := bind_eq_ok hx
  obtain ⟨typeParameters, htypeParameters, hx⟩ := bind_eq_ok hx
  obtain ⟨supertypes, hsupertypes, hx⟩ := bind_eq_ok hx
  have hentries' : each b .enumEntry (readEnumEntry parts') = .ok entries :=
    (carries_enumEntry hp).each hab hentries
  have hparameters' : atMostOne t .valueParameters (readParameters parts') = .ok parameters :=
    (carries_parameters hp).atMostOne hst hparameters
  dsimp only
  rw [hentries', ok_bind, hparameters', ok_bind,
    carries_variantTypeParameters hp hst htypeParameters, ok_bind,
    carries_supertypes hp hst hsupertypes]
  exact (carries_classBody hp .enumClassBody).andThen hst hx

theorem carries_constant : Carries (readConstant parts) (readConstant parts') := by
  intro s t x hst hx
  unfold readConstant at hx ⊢
  rcases hst.child? .primitiveEnumValue with ⟨hs, ht⟩ | ⟨a, b, hs, ht, hab⟩
  · rw [hs] at hx
    rw [ht]
    exact Carries.textOf.map .const hst hx
  · rw [hs] at hx
    rw [ht]
    obtain ⟨value, hvalue, hx⟩ := bind_eq_ok hx
    have hvalue' : one b .expression parts'.expression = .ok value :=
      hp.expression.one hab hvalue
    dsimp only
    rw [hvalue', ← hab.has]
    exact Carries.textOf.andThen hst hx

theorem carries_constants : Carries (readConstants parts) (readConstants parts') :=
  (carries_constant hp).each.bind fun _ => Carries.meaning.one.bind fun _ =>
    .pure fun _ _ h => by rw [h.has]

theorem carries_record : Carries (readRecord parts) (readRecord parts') :=
  (carries_typeParameters hp).bind fun _ => (carries_parameters hp).one.bind fun _ =>
    (carries_supertypes hp).bind fun _ => (carries_classBody hp .classBody).bind fun _ => .const

theorem carries_inlineClass : Carries (readInlineClass parts) (readInlineClass parts') :=
  (carries_parameter hp).one.bind fun _ => (carries_supertypes hp).bind fun _ =>
    (carries_classBody hp .classBody).bind fun _ => .const

theorem carries_annotationParameter :
    Carries (readAnnotationParameter parts) (readAnnotationParameter parts') :=
  hp.expression.atMostOne.bind fun _ => (carries_annotations hp).bind fun _ =>
    carries_type.one.bind fun _ => .bind .textOf fun _ => .const

theorem carries_annotationType :
    Carries (readAnnotationType parts) (readAnnotationType parts') :=
  (carries_annotationParameter hp).each.listUnder.bind fun _ =>
    (carries_classBody hp .annotationBody).bind fun _ => .const

theorem carries_typeKind : Carries (readTypeKind parts) (readTypeKind parts') := by
  intro s t x hst hx
  unfold readTypeKind at hx ⊢
  rw [← hst.rule_eq]
  generalize s.rule = rule at hx ⊢
  split at hx
  · exact carries_class hp hst hx
  · exact carries_singleton hp hst hx
  · exact carries_interface hp hst hx
  · exact carries_enumClass hp hst hx
  · exact carries_constants hp hst hx
  · exact carries_record hp hst hx
  · exact carries_inlineClass hp hst hx
  · exact carries_annotationType hp hst hx
  · cases hx

theorem carries_typeDeclaration (scope : Scope) :
    Carries (readTypeDeclaration parts scope) (readTypeDeclaration parts' scope) := by
  intro s t x hst hx
  unfold readTypeDeclaration at hx ⊢
  have hmodifier : ∀ a b : Node, Alike a b → (! isTypeModifier a) = ! isTypeModifier b := by
    intro a b hab
    rw [isTypeModifier, isTypeModifier, hab.rule_eq]
  rcases Alike.find? hst.children hmodifier with ⟨hs, -⟩ | ⟨a, b, hs, ht, hab⟩
  · rw [hs] at hx
    cases hx
  · rw [hs] at hx
    rw [ht]
    obtain ⟨kind, hkind, hx⟩ := bind_eq_ok hx
    obtain ⟨name, hname, hx⟩ := bind_eq_ok hx
    obtain ⟨annotations, hannotations, hx⟩ := bind_eq_ok hx
    have hname' : nameOf b = .ok name := Carries.textOf hab hname
    dsimp only
    rw [carries_typeKind hp hab hkind, ok_bind, hname', ok_bind,
      carries_annotations hp hst hannotations]
    exact (carries_visibility scope).andThen hst hx

theorem carries_declaration (scope : Scope) :
    Carries (readDeclaration parts scope) (readDeclaration parts' scope) := by
  apply Carries.first
  intro _ _ _ s t x hst hx
  dsimp only at hx ⊢
  rw [← hst.rule_eq]
  generalize s.rule = rule at hx ⊢
  split at hx
  · exact carries_typeDeclaration hp scope hst hx
  · exact (carries_function hp scope).map .const hst hx
  · exact (carries_properties hp scope).map .const hst hx
  · cases hx

end

theorem carries_none (parts : Readers) : Readers.none.Carries parts where
  expression _ _ _ _ h := by cases h
  statement _ _ _ _ h := by cases h
  declaration _ _ _ _ _ h := by cases h
  conditions _ _ _ _ h := by cases h

/-- Readers of a greater height read what those of a smaller one do. -/
theorem carries_ofHeight {height height' : Nat} (hle : height ≤ height') :
    (Readers.ofHeight height).Carries (Readers.ofHeight height') := by
  induction height generalizing height' with
  | zero => exact carries_none _
  | succ height ih =>
    obtain ⟨higher, rfl⟩ : ∃ higher, height' = higher + 1 := ⟨height' - 1, by omega⟩
    have hp := ih (Nat.le_of_succ_le_succ hle)
    exact ⟨carries_expression hp, carries_statement hp, carries_declaration hp,
      carries_conditions hp⟩

theorem carries_importHeader : Carries readImport readImport := by
  have hnames : Carries
      (fun list => (pure ((list.childrenOf .simpleIdentifier).map (·.text)) : Read (List String)))
      fun list => pure ((list.childrenOf .simpleIdentifier).map (·.text)) := by
    refine .pure fun s t hst => ?_
    have hmap := (hst.childrenOf .simpleIdentifier).imp fun a b => Alike.text_eq
    rw [← List.forall₂_eq_eq_eq, List.forall₂_map_left_iff, List.forall₂_map_right_iff]
    exact hmap
  exact hnames.listUnder.bind fun _ => Carries.textOf.atMostOne.bind fun _ =>
    .bind .textOf fun _ => .pure fun _ _ h => by rw [h.has]

theorem carries_file : Carries readFile readFile := by
  intro s t file hst h
  obtain ⟨package, hpackage, h⟩ := bind_eq_ok h
  obtain ⟨imports, himports, h⟩ := bind_eq_ok h
  obtain ⟨declarations, hdeclarations, h⟩ := bind_eq_ok h
  have hparts := carries_ofHeight (Nat.le_of_eq hst.height_eq)
  have hpackage' : atMostOne t .packageHeader (fun header => textOf header .identifier) =
      .ok package := Carries.textOf.atMostOne hst hpackage
  have himports' : each t .importHeader readImport = .ok imports :=
    carries_importHeader.each hst himports
  have hdeclarations' :
      each t .declaration ((Readers.ofHeight t.height).declaration .member) = .ok declarations :=
    (hparts.declaration .member).each hst hdeclarations
  rw [readFile, hpackage', himports', hdeclarations', ← textOf?_eq hst]
  exact h

end QuovaKotlin.Reading

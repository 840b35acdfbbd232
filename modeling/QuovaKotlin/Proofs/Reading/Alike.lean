import Mathlib.Data.List.Forall2
import QuovaKotlin.Proofs.Reading.Settling
import QuovaKotlin.Proofs.Shifting
import QuovaKotlin.Reading.File

/-!
# Reading trees at another place

What is read from a tree does not depend on where the tree stands in its text. `Carries` says this
of two readers: what the first one reads from a tree, the second one reads from every tree alike.
-/

set_option autoImplicit false

namespace QuovaKotlin.Peg.ParseTree

variable {ρ : Type} {s t : ParseTree ρ}

mutual

theorem height_erase : ∀ t : ParseTree ρ, t.erase.height = t.height
  | token .. => rfl
  | node _ _ ts => by rw [erase, height, height, heightAll_eraseAll ts]

theorem heightAll_eraseAll : ∀ ts : List (ParseTree ρ), heightAll (eraseAll ts) = heightAll ts
  | [] => rfl
  | t :: ts => by rw [eraseAll, heightAll, heightAll, height_erase t, heightAll_eraseAll ts]

end

theorem Alike.height_eq (h : Alike s t) : s.height = t.height := by
  rw [← height_erase s, h, height_erase]

theorem Alike.heightAll_eq {ts us : List (ParseTree ρ)} (h : List.Forall₂ Alike ts us) :
    heightAll ts = heightAll us := by
  induction h with
  | nil => rfl
  | cons hab _ ih => rw [heightAll, heightAll, hab.height_eq, ih]

theorem Alike.children (h : Alike s t) : List.Forall₂ Alike s.children t.children := by
  have hmap := h.children_eq
  rw [← List.forall₂_eq_eq_eq, List.forall₂_map_left_iff, List.forall₂_map_right_iff] at hmap
  exact hmap

theorem Alike.find? {ts us : List (ParseTree ρ)} (h : List.Forall₂ Alike ts us)
    {p : ParseTree ρ → Bool} (hp : ∀ s t, Alike s t → p s = p t) :
    ts.find? p = none ∧ us.find? p = none ∨
      ∃ a b, ts.find? p = some a ∧ us.find? p = some b ∧ Alike a b := by
  induction h with
  | nil => exact .inl ⟨rfl, rfl⟩
  | @cons a b ts us hab _ ih =>
    by_cases ha : p a
    · have hb : p b := hp a b hab ▸ ha
      exact .inr ⟨a, b, List.find?_cons_of_pos ha, List.find?_cons_of_pos hb, hab⟩
    · have hb : ¬ p b := hp a b hab ▸ ha
      rw [List.find?_cons_of_neg ha, List.find?_cons_of_neg hb]
      exact ih

variable [DecidableEq ρ]

theorem Alike.child? (h : Alike s t) (r : ρ) :
    s.child? r = none ∧ t.child? r = none ∨
      ∃ a b, s.child? r = some a ∧ t.child? r = some b ∧ Alike a b :=
  find? h.children fun a b hab => by rw [hab.rule_eq]

theorem Alike.filter {ts us : List (ParseTree ρ)} (h : List.Forall₂ Alike ts us) (r : ρ) :
    List.Forall₂ Alike (ts.filter (·.rule = r)) (us.filter (·.rule = r)) := by
  induction h with
  | nil => exact .nil
  | cons hab _ ih =>
    rw [List.filter_cons, List.filter_cons, hab.rule_eq]
    split
    · exact .cons hab ih
    · exact ih

theorem Alike.childrenOf (h : Alike s t) (r : ρ) :
    List.Forall₂ Alike (s.childrenOf r) (t.childrenOf r) :=
  filter h.children r

theorem Alike.has (h : Alike s t) (r : ρ) : s.has r = t.has r := by
  unfold ParseTree.has
  rcases h.child? r with ⟨hs, ht⟩ | ⟨a, b, hs, ht, -⟩ <;> rw [hs, ht]
  rfl

end QuovaKotlin.Peg.ParseTree

namespace QuovaKotlin.Reading

open Ast Peg
open Peg.ParseTree (Alike)
open Source (Rule)

/-- What the first reader reads from a tree, the second one reads from every tree alike. -/
def Carries {α : Type} (read read' : Node → Read α) : Prop :=
  ∀ ⦃s t : Node⦄ ⦃x : α⦄, Alike s t → read s = .ok x → read' t = .ok x

/-- A function of a tree that does not see its places. -/
def Blind {α : Type} (f : Node → α) : Prop :=
  ∀ ⦃s t : Node⦄, Alike s t → f s = f t

section

variable {α β : Type} {read read' : Node → Read α} {s t : Node} {rule : Rule}

theorem Blind.const {x : α} : Blind fun _ => x :=
  fun _ _ _ => rfl

theorem textOf?_eq (h : Alike s t) (rule : Rule) : textOf? s rule = textOf? t rule := by
  unfold textOf?
  rcases h.child? rule with ⟨hs, ht⟩ | ⟨a, b, hs, ht, hab⟩ <;> rw [hs, ht]
  rw [Option.map_some, Option.map_some, hab.text_eq]

namespace Carries

theorem pure {value : Node → α} (h : Blind value) :
    Carries (fun node => Pure.pure (value node)) fun node => Pure.pure (value node) := by
  intro s t x hst hx
  show Pure.pure (value t) = _
  rw [← h hst]
  exact hx

theorem const {r : Read α} : Carries (fun _ => r) fun _ => r :=
  fun _ _ _ _ hx => hx

theorem bind {next next' : Node → α → Read β} (h : Carries read read')
    (hnext : ∀ x, Carries (next · x) (next' · x)) :
    Carries (fun node => read node >>= next node) fun node => read' node >>= next' node := by
  intro s t y hst hy
  obtain ⟨x, hx, hy⟩ := bind_eq_ok hy
  show read' t >>= next' t = .ok y
  rw [h hst hx, ok_bind]
  exact hnext x hst hy

/-- Two readers with the same continuation. -/
theorem andThen {next : α → Read β} {y : β} (h : Carries read read') (hst : Alike s t)
    (hy : read s >>= next = .ok y) : read' t >>= next = .ok y := by
  obtain ⟨x, hx, hy⟩ := bind_eq_ok hy
  rw [h hst hx]
  exact hy

theorem map {f : Node → α → β} (h : Carries read read') (hf : Blind f) :
    Carries (fun node => f node <$> read node) fun node => f node <$> read' node := by
  intro s t y hst hy
  obtain ⟨x, hx, rfl⟩ := map_eq_ok hy
  show f t <$> read' t = .ok (f s x)
  rw [h hst hx, hf hst]
  rfl

theorem ite {condition : Node → Bool} {other other' : Node → Read α} (hblind : Blind condition)
    (h : Carries read read') (hother : Carries other other') :
    Carries (fun node => if condition node then read node else other node)
      fun node => if condition node then read' node else other' node := by
  intro s t x hst hx
  dsimp only at hx ⊢
  rw [← hblind hst]
  split at hx
  · next htrue =>
    rw [if_pos htrue]
    exact h hst hx
  · next hfalse =>
    rw [if_neg hfalse]
    exact hother hst hx

theorem mapM (h : Carries read read') {ts us : List Node} (hts : List.Forall₂ Alike ts us)
    {xs : List α} (hxs : ts.mapM read = .ok xs) : us.mapM read' = .ok xs := by
  induction hts generalizing xs with
  | nil => exact hxs
  | cons hab _ ih =>
    rw [List.mapM_cons] at hxs ⊢
    obtain ⟨y, hy, hxs⟩ := bind_eq_ok hxs
    obtain ⟨ys, hys, hxs⟩ := bind_eq_ok hxs
    rw [h hab hy, ih hys]
    exact hxs

theorem each (h : Carries read read') : Carries (each · rule read) (each · rule read') :=
  fun _ _ _ hst hxs => h.mapM (hst.childrenOf rule) hxs

/-- Readers that start with a child that must be there. -/
theorem required {next next' : Node → Node → Read α}
    (h : ∀ ⦃s t⦄, Alike s t → Carries (next s) (next' t)) :
    Carries (fun node => required node rule >>= next node)
      fun node => required node rule >>= next' node := by
  intro s t x hst hx
  obtain ⟨child, hchild, hx⟩ := bind_eq_ok hx
  unfold Reading.required at hchild
  rcases hst.child? rule with ⟨hs, ht⟩ | ⟨a, b, hs, ht, hab⟩
  · rw [hs] at hchild
    cases hchild
  · rw [hs] at hchild
    cases hchild
    have hrequired : Reading.required t rule = .ok b := by rw [Reading.required, ht]
    show Reading.required t rule >>= next' t = _
    rw [hrequired]
    exact h hst hab hx

theorem one (h : Carries read read') : Carries (one · rule read) (one · rule read') :=
  required fun _ _ _ => h

theorem atMostOne (h : Carries read read') :
    Carries (atMostOne · rule read) (atMostOne · rule read') := by
  intro s t value hst hvalue
  simp only [Reading.atMostOne] at hvalue ⊢
  rcases hst.child? rule with ⟨hs, ht⟩ | ⟨a, b, hs, ht, hab⟩
  · rw [hs] at hvalue
    rw [ht]
    exact hvalue
  · rw [hs] at hvalue
    rw [ht]
    obtain ⟨x, hx, rfl⟩ := map_eq_ok hvalue
    show some <$> read' b = .ok (some x)
    rw [h hab hx]
    rfl

theorem listUnder {read read' : Node → Read (List α)} (h : Carries read read') :
    Carries (listUnder · rule read) (listUnder · rule read') :=
  h.atMostOne.bind fun _ => .const

/-- Readers that ask for a child first. -/
theorem onChild {some some' : Node → Node → Read α}
    (hsome : ∀ ⦃s t⦄, Alike s t → Carries (some s) (some' t)) (h : Carries read read') :
    Carries
      (fun node => match node.child? rule with
        | .some child => some node child
        | .none => read node)
      fun node => match node.child? rule with
        | .some child => some' node child
        | .none => read' node := by
  intro s t x hst hx
  dsimp only at hx ⊢
  rcases hst.child? rule with ⟨hs, ht⟩ | ⟨a, b, hs, ht, hab⟩
  · rw [hs] at hx
    rw [ht]
    exact h hst hx
  · rw [hs] at hx
    rw [ht]
    exact hsome hst hab hx

/-- Readers that start with the first child, whatever it is. -/
theorem first {next next' : Node → Node → Read α}
    (h : ∀ ⦃s t⦄, Alike s t → Carries (next s) (next' t)) :
    Carries (fun node => first node >>= next node) fun node => first node >>= next' node := by
  intro s t x hst hx
  obtain ⟨child, hchild, hx⟩ := bind_eq_ok hx
  show Reading.first t >>= next' t = .ok x
  unfold Reading.first at hchild ⊢
  split at hchild
  · next a as hs =>
    have hchildren := hst.children
    rw [hs] at hchildren
    obtain ⟨b, bs, hab, -, ht⟩ := List.forall₂_cons_left_iff.mp hchildren
    cases hchild
    rw [ht]
    exact h hst hab hx
  · cases hchild

theorem textOf : Carries (textOf · rule) (textOf · rule) :=
  one (.pure fun _ _ h => h.text_eq)

theorem meaning {table : String → Option α} :
    Carries (meaning table ·) (meaning table ·) := by
  intro s t x hst hx
  simp only [Reading.meaning] at hx ⊢
  rw [← hst.text_eq]
  split at hx
  · exact hx
  · cases hx

end Carries

end

section Types

variable {inner inner' : TypeReader} (hinner : Carries inner inner')

theorem carries_primitiveType : Carries readPrimitiveType readPrimitiveType :=
  Carries.meaning.one.bind fun _ => .pure fun _ _ h => by rw [h.has]

include hinner

theorem carries_typeArgument : Carries (readTypeArgument inner) (readTypeArgument inner') :=
  .ite (fun _ _ h => h.has _) .const
    (Carries.meaning.atMostOne.bind fun _ => hinner.one.bind fun _ => .const)

theorem carries_typeArgumentsWith :
    Carries (readTypeArgumentsWith inner) (readTypeArgumentsWith inner') :=
  (carries_typeArgument hinner).each

theorem carries_userTypeWith : Carries (readUserTypeWith inner) (readUserTypeWith inner') :=
  (carries_typeArgumentsWith hinner).listUnder.bind fun _ => .bind .textOf fun _ => .const

theorem carries_functionType : Carries (readFunctionType inner) (readFunctionType inner') :=
  hinner.each.one.bind fun _ => hinner.one.bind fun _ => .pure fun _ _ h => by rw [h.has]

theorem carries_typeCore : Carries (readTypeCore inner) (readTypeCore inner') := by
  intro s t x hst hx
  unfold readTypeCore at hx ⊢
  rw [← hst.rule_eq]
  generalize s.rule = rule at hx ⊢
  split at hx
  · exact carries_functionType hinner hst hx
  · exact carries_primitiveType.map .const hst hx
  · exact (carries_userTypeWith hinner).map .const hst hx
  · cases hx

theorem carries_typeWith : Carries (readTypeWith inner) (readTypeWith inner') := by
  apply Carries.first
  intro s t hst
  rw [hst.has, (hst.childrenOf _).length_eq]
  exact (carries_typeCore hinner).bind fun _ => .const

omit hinner

theorem carries_typeIn (height : Nat) : Carries (readTypeIn height) (readTypeIn height) := by
  induction height with
  | zero =>
    intro s t x _ hx
    cases hx
  | succ height ih => exact carries_typeWith ih

theorem carries_type : Carries readType readType := by
  intro s t x hst hx
  unfold readType at hx ⊢
  rw [← hst.height_eq]
  exact carries_typeIn s.height hst hx

theorem carries_userType : Carries readUserType readUserType :=
  carries_userTypeWith carries_type

theorem carries_typeArguments : Carries readTypeArguments readTypeArguments :=
  carries_typeArgumentsWith carries_type

theorem carries_typeOrVar : Carries readTypeOrVar readTypeOrVar :=
  carries_type.atMostOne

theorem carries_typeOrVoid : Carries readTypeOrVoid readTypeOrVoid :=
  carries_type.atMostOne.bind fun _ => .const

theorem carries_declaredType : Carries readDeclaredType readDeclaredType :=
  carries_typeOrVar.atMostOne.bind fun _ => .const

end Types

/-- What the first readers read from a tree, the second ones read from every tree alike. -/
structure Readers.Carries (parts parts' : Readers) : Prop where
  expression : Reading.Carries parts.expression parts'.expression
  statement : Reading.Carries parts.statement parts'.statement
  declaration : ∀ scope, Reading.Carries (parts.declaration scope) (parts'.declaration scope)
  conditions : Reading.Carries parts.conditions parts'.conditions

theorem carries_visibility (scope : Scope) :
    Carries (readVisibility scope) (readVisibility scope) :=
  Carries.meaning.atMostOne.bind fun _ => .const

theorem carries_inheritance : Carries readInheritance readInheritance :=
  Carries.meaning.atMostOne

theorem carries_varianceMark : Carries readVarianceMark readVarianceMark :=
  Carries.meaning.atMostOne.map .const

theorem carries_reifiedMark : Carries readReifiedMark readReifiedMark :=
  .pure fun _ _ h => by rw [h.has]

variable {parts parts' : Readers} (hp : parts.Carries parts')

include hp

theorem carries_argument : Carries (readArgument parts) (readArgument parts') :=
  hp.expression.one.bind fun _ => .pure fun _ _ h => by rw [textOf?_eq h]

theorem carries_arguments : Carries (readArguments parts) (readArguments parts') :=
  (carries_argument hp).each

theorem carries_annotationArgument :
    Carries (readAnnotationArgument parts) (readAnnotationArgument parts') := by
  apply Carries.onChild
  · intro s t hst
    rw [textOf?_eq hst]
    exact hp.expression.each.map .const
  · exact hp.expression.one.map fun s t hst => by rw [textOf?_eq hst]

theorem carries_annotationUse :
    Carries (readAnnotationUse parts) (readAnnotationUse parts') :=
  carries_typeArguments.listUnder.bind fun _ =>
    (carries_annotationArgument hp).each.bind fun _ => .bind .textOf fun _ => .const

theorem carries_annotations : Carries (readAnnotations parts) (readAnnotations parts') :=
  (carries_annotationUse hp).each

theorem carries_parameter : Carries (readParameter parts) (readParameter parts') :=
  hp.expression.atMostOne.bind fun _ => (carries_annotations hp).bind fun _ =>
    carries_type.one.bind fun _ => .bind .textOf fun _ => .pure fun _ _ h => by
      rw [h.has, h.has]

theorem carries_parameters : Carries (readParameters parts) (readParameters parts') :=
  (carries_parameter hp).each

theorem carries_typeParameter {mark : Node → Read TypeParameterMark} (hmark : Carries mark mark) :
    Carries (readTypeParameter parts mark) (readTypeParameter parts' mark) :=
  hmark.bind fun _ => (carries_annotations hp).bind fun _ => .bind .textOf fun _ =>
    carries_type.each.bind fun _ => .const

theorem carries_typeParameters :
    Carries (readTypeParameters parts) (readTypeParameters parts') :=
  (carries_typeParameter hp carries_reifiedMark).each.listUnder

theorem carries_variantTypeParameters :
    Carries (readVariantTypeParameters parts) (readVariantTypeParameters parts') :=
  (carries_typeParameter hp carries_varianceMark).each.listUnder

theorem carries_block : Carries (readBlock parts) (readBlock parts') :=
  hp.statement.each

theorem carries_body : Carries (readBody parts) (readBody parts') := by
  apply Carries.first
  intro _ _ _ s t x hst hx
  dsimp only at hx ⊢
  rw [← hst.rule_eq]
  generalize s.rule = rule at hx ⊢
  split at hx
  · exact (carries_block hp).map .const hst hx
  · exact hp.statement hst hx
  · exact hx
  · cases hx

theorem carries_loopHeader : Carries (readLoopHeader parts) (readLoopHeader parts') :=
  carries_declaredType.bind fun _ => .bind .textOf fun _ => hp.expression.one.bind fun _ => .const

theorem carries_lambdaParameter :
    Carries (readLambdaParameter parts) (readLambdaParameter parts') :=
  carries_declaredType.bind fun _ => .bind .textOf fun _ =>
    (carries_annotations hp).bind fun _ => .const

theorem carries_lambdaBody : Carries (readLambdaBody parts) (readLambdaBody parts') :=
  hp.expression.atMostOne.bind fun _ => (carries_block hp).bind fun _ => .const

theorem carries_lambda : Carries (readLambda parts) (readLambda parts') :=
  (carries_lambdaParameter hp).each.bind fun _ =>
    .onChild (fun _ _ _ => (carries_lambdaBody hp).map .const) (hp.expression.one.map .const)

theorem carries_dictionaryEntry :
    Carries (readDictionaryEntry parts) (readDictionaryEntry parts') := by
  intro s t x hst hx
  unfold readDictionaryEntry at hx ⊢
  have hchildren := hst.childrenOf .expression
  split at hx
  · next key value others hs =>
    rw [hs] at hchildren
    obtain ⟨key', rest, hkey, hrest, ht⟩ := List.forall₂_cons_left_iff.mp hchildren
    obtain ⟨value', others', hvalue, -, rfl⟩ := List.forall₂_cons_left_iff.mp hrest
    rw [ht]
    obtain ⟨k, hk, hx⟩ := bind_eq_ok hx
    obtain ⟨v, hv, hx⟩ := bind_eq_ok hx
    simp only [hp.expression hkey hk, hp.expression hvalue hv]
    exact hx
  · cases hx

theorem carries_initializer : Carries (readInitializer parts) (readInitializer parts') :=
  .ite (fun _ _ h => h.has _) ((carries_dictionaryEntry hp).each.map .const)
    ((carries_arguments hp).map .const)

theorem carries_elements (construct : Unsupported) :
    Carries (readElements parts construct) (readElements parts' construct) := by
  apply (carries_initializer hp).bind
  intro initializer s t x hst hx
  cases initializer with
  | elements => exact hx
  | entries => cases hx

omit hp in
theorem carries_elementType : Carries readElementType readElementType :=
  .onChild (fun _ _ _ => Carries.meaning.map .const) (carries_userType.one.map .const)

theorem carries_constructorArguments :
    Carries (readConstructorArguments parts) (readConstructorArguments parts') := by
  intro s t x hst hx
  unfold readConstructorArguments at hx ⊢
  rcases hst.child? .valueArguments with ⟨hs, ht⟩ | ⟨a, b, hs, ht, hab⟩
  · rw [hs] at hx
    rw [ht]
    rcases hst.child? .initializerList with ⟨hs', ht'⟩ | ⟨a, b, hs', ht', hab⟩
    · rw [hs'] at hx
      cases hx
    · rw [hs'] at hx
      rw [ht']
      exact carries_elements hp _ hab hx
  · rw [hs] at hx
    rw [ht]
    exact carries_arguments hp hab hx

theorem carries_constructorInvocation :
    Carries (readConstructorInvocation parts) (readConstructorInvocation parts') := by
  apply carries_elementType.bind
  intro element
  apply hp.expression.one.each.bind
  intro sizes s t x hst hx
  dsimp only at hx ⊢
  generalize element.sized? sizes = array at hx ⊢
  cases array with
  | some array => exact hx
  | none =>
    dsimp only at hx ⊢
    rw [← (hst.childrenOf _).length_eq]
    split at hx
    · next hzero =>
      rw [if_pos hzero]
      exact (carries_constructorArguments hp).map .const hst hx
    · next hzero =>
      rw [if_neg hzero]
      exact (carries_elements hp _).one.andThen hst hx

omit hp in
theorem carries_conditionKind : Carries readConditionKind readConditionKind := by
  apply Carries.first
  intro _ _ _ s t x hst hx
  dsimp only at hx ⊢
  rw [← hst.rule_eq, ← hst.text_eq]
  generalize s.rule = rule at hx ⊢
  split at hx
  · exact hx
  · exact hx
  · exact hx
  · cases hx

theorem carries_conditions : Carries (readConditions parts) (readConditions parts') :=
  carries_conditionKind.one.bind fun _ => hp.expression.each.bind fun _ =>
    hp.conditions.listUnder.bind fun _ => .const

theorem carries_switchBranch : Carries (readSwitchBranch parts) (readSwitchBranch parts') :=
  (carries_conditions hp).one.bind fun _ => (carries_body hp).one.bind fun _ => .const

theorem carries_fallback : Carries (readFallback parts) (readFallback parts') :=
  (carries_body hp).one.atMostOne

theorem carries_switch : Carries (readSwitch parts) (readSwitch parts') :=
  (carries_switchBranch hp).each.bind fun _ => hp.expression.one.bind fun _ =>
    (carries_fallback hp).bind fun _ => .const

theorem carries_whenBranch : Carries (readWhenBranch parts) (readWhenBranch parts') :=
  hp.expression.each.bind fun _ => (carries_body hp).one.bind fun _ => .const

theorem carries_when : Carries (readWhen parts) (readWhen parts') :=
  (carries_whenBranch hp).each.bind fun _ => (carries_fallback hp).bind fun _ => .const

theorem carries_literal : Carries (readLiteral parts) (readLiteral parts') := by
  intro s t x hst hx
  unfold readLiteral at hx ⊢
  rw [← hst.rule_eq, ← hst.text_eq]
  generalize s.rule = rule at hx ⊢
  split at hx
  case h_11 => exact carries_userType.atMostOne.map .const hst hx
  case h_12 => exact carries_lambda hp hst hx
  case h_13 => exact (carries_initializer hp).andThen hst hx
  case h_14 => cases hx
  all_goals exact hx

theorem carries_operand : Carries (readOperand parts) (readOperand parts') := by
  intro s t x hst hx
  unfold readOperand at hx ⊢
  rw [← hst.rule_eq, ← hst.text_eq]
  generalize s.rule = rule at hx ⊢
  split at hx
  · exact (Carries.first fun _ _ _ => carries_literal hp) hst hx
  · exact carries_constructorInvocation hp hst hx
  · exact carries_switch hp hst hx
  · exact carries_when hp hst hx
  · exact hp.expression.map .const hst hx
  · exact hx
  · cases hx

theorem carries_invocation : Carries (readInvocation parts) (readInvocation parts') :=
  carries_typeArguments.listUnder.bind fun _ => (carries_arguments hp).listUnder.bind fun _ =>
    (carries_lambdaBody hp).atMostOne.bind fun _ => .const

omit hp in
theorem carries_callTarget : Carries readCallTarget readCallTarget :=
  .ite (fun _ _ h => h.has _) .const (Carries.textOf.map .const)

theorem carries_postfixOperator :
    Carries (readPostfixOperator parts) (readPostfixOperator parts') := by
  apply Carries.first
  intro _ _ _ s t x hst hx
  dsimp only at hx ⊢
  rw [← hst.rule_eq]
  generalize s.rule = rule at hx ⊢
  split at hx
  · exact Carries.meaning hst hx
  · exact carries_invocation hp hst hx
  · exact hp.expression.each.map .const hst hx
  · obtain ⟨kind, hkind, hx⟩ := bind_eq_ok hx
    have hkind' : one t .callOperator (meaning CallKind.ofSymbol?) = .ok kind :=
      Carries.meaning.one hst hkind
    rw [hkind']
    exact carries_callTarget.andThen hst hx
  · cases hx

omit hp in
theorem carries_prefixed (operand : Expression) :
    Carries (readPrefixed · operand) (readPrefixed · operand) := by
  intro s t x hst hx
  simp only [readPrefixed] at hx ⊢
  rw [← hst.rule_eq]
  generalize s.rule = rule at hx ⊢
  split at hx
  · exact hx
  · exact Carries.meaning.andThen hst hx

theorem carries_suffixed (operand : Expression) :
    Carries (readSuffixed parts operand) (readSuffixed parts' operand) := by
  intro s t x hst hx
  unfold readSuffixed at hx ⊢
  rw [← hst.rule_eq, ← hst.has]
  generalize s.rule = rule at hx ⊢
  split at hx
  · exact carries_type.one.andThen hst hx
  · exact (carries_postfixOperator hp).andThen hst hx

omit hp in
theorem carries_binaryOperator : Carries readBinaryOperator readBinaryOperator := by
  intro s t x hst hx
  unfold readBinaryOperator at hx ⊢
  rw [← hst.rule_eq]
  generalize s.rule = rule at hx ⊢
  split at hx
  case h_3 | h_4 | h_9 | h_10 | h_13 | h_14 => exact Carries.meaning.map .const hst hx
  case h_15 => cases hx
  all_goals exact hx

theorem carries_infix (left right : Expression) :
    Carries (readInfix parts left · right) (readInfix parts' left · right) := by
  intro s t x hst hx
  simp only [readInfix] at hx ⊢
  rw [← hst.rule_eq]
  generalize s.rule = rule at hx ⊢
  split at hx
  · exact Carries.meaning.andThen hst hx
  · exact hp.expression.one.andThen hst hx
  · exact carries_binaryOperator.andThen hst hx

end QuovaKotlin.Reading

import QuovaKotlin.Proofs.Reading.Types
import QuovaKotlin.Reading.Readers

/-!
# Reading arguments, parameters and bodies settles

Everything here is relative to readers that settle the parts of a tree up to a given height.
-/

set_option autoImplicit false

namespace QuovaKotlin.Reading

open Source (Rule)
open Ast

/-- The readers settle every tree up to the given height. -/
structure Readers.Settle (parts : Readers) (height : Nat) : Prop where
  expression : Handles height .expression parts.expression
  statement : Handles height .statement parts.statement
  declaration (scope : Scope) : Handles height .declaration (parts.declaration scope)
  conditions : Handles height .switchCondition parts.conditions

variable {height : Nat} {rule : Rule} {node : Node}

theorem covers_visibility (scope : Scope) (h : Site (height + 1) rule node) :
    Covers node ([] ++ []) (readVisibility scope node) :=
  (Covers.word h (r := .visibilityModifier) (by decide) (handles_meaning (by decide))).bind
    fun _ _ => .pure _

theorem covers_inheritance (h : Site (height + 1) rule node) :
    Covers node [] (readInheritance node) :=
  Covers.word h (r := .inheritanceModifier) (by decide) (handles_meaning (by decide))

section Parts

variable {parts : Readers} (hp : parts.Settle height)

include hp

theorem handles_argument : Handles (height + 1) .valueArgument (readArgument parts) := by
  intro node h
  have hc : Covers node _ (readArgument parts node) :=
    (Covers.one h (by decide) hp.expression).bind fun _ _ => .pure _
  exact hc.settles h (by decide)

theorem covers_arguments (h : Site (height + 1) rule node) :
    Covers node [.valueArgument] (readArguments parts node) :=
  Covers.each h (handles_argument hp).lower

theorem handles_arguments : Handles (height + 1) .valueArguments (readArguments parts) :=
  fun _ h => (covers_arguments hp h).settles h (by decide)

theorem handles_annotationArray :
    Handles (height + 1) .annotationArray fun array => each array .expression parts.expression :=
  fun _ h => (Covers.each h hp.expression).settles h (by decide)

theorem handles_annotationArgument :
    Handles (height + 1) .annotationArgument (readAnnotationArgument parts) := by
  intro node h
  have hc : Covers node [.annotationArray, .expression] (readAnnotationArgument parts node) := by
    refine Covers.either h (by decide) (by decide) (by decide) (fun array harray => ?_)
      (fun hvalue => ?_)
    · exact Covers.visit h (by decide) harray
        (((handles_annotationArray hp).lower array (h.found harray)).map _)
    · exact (Covers.present h (by decide) hvalue hp.expression).map _
  exact hc.settles h (by decide)

theorem handles_annotationUse : Handles (height + 1) .annotationUse (readAnnotationUse parts) := by
  intro node h
  have hc : Covers node _ (readAnnotationUse parts node) :=
    (Covers.listUnder h (by decide) handles_typeArguments).bind fun _ _ =>
      (Covers.each h (handles_annotationArgument hp).lower).bind fun _ _ =>
        (Covers.textOf h (by decide)).bind fun _ _ => .pure _
  exact hc.settles h (by decide)

theorem covers_annotations (h : Site (height + 1) rule node) :
    Covers node [.annotationUse] (readAnnotations parts node) :=
  Covers.each h (handles_annotationUse hp).lower

theorem handles_parameter : Handles (height + 1) .valueParameter (readParameter parts) := by
  intro node h
  have hc : Covers node _ (readParameter parts node) :=
    (Covers.atMostOne h (by decide) hp.expression).bind fun _ _ =>
      (covers_annotations hp h).bind fun _ _ =>
        (Covers.one h (by decide) handles_type).bind fun _ _ =>
          (Covers.nameOf h (by decide)).bind fun _ _ => .pure _
  exact hc.settles h (by decide)

theorem handles_parameters : Handles (height + 1) .valueParameters (readParameters parts) :=
  fun _ h => (Covers.each h (handles_parameter hp).lower).settles h (by decide)

theorem covers_typeParameter {mark : Node → Read TypeParameterMark}
    (h : Site (height + 1) rule node) (hmark : Covers node [.varianceModifier] (mark node))
    (halways : always rule (· = .simpleIdentifier)) :
    Covers node ([.varianceModifier] ++ ([.annotationUse] ++ ([] ++ ([.typeUse] ++ []))))
      (readTypeParameter parts mark node) :=
  hmark.bind fun _ _ =>
    (covers_annotations hp h).bind fun _ _ =>
      (Covers.nameOf h halways).bind fun _ _ =>
        (Covers.each h handles_type).bind fun _ _ => .pure _

theorem handles_typeParameter :
    Handles (height + 1) .typeParameter (readTypeParameter parts readReifiedMark) := by
  intro node h
  have hmark : Covers node [.varianceModifier] (readReifiedMark node) :=
    (Covers.ok _).skip (h.not_under_inert (by decide))
  exact (covers_typeParameter hp h hmark (by decide)).settles h (by decide)

theorem handles_variantTypeParameter :
    Handles (height + 1) .variantTypeParameter (readTypeParameter parts readVarianceMark) := by
  intro node h
  have hmark : Covers node [.varianceModifier] (readVarianceMark node) :=
    (Covers.atMostOne h (by decide) handles_variance).map _
  exact (covers_typeParameter hp h hmark (by decide)).settles h (by decide)

theorem handles_typeParameterList :
    Handles (height + 1) .typeParameters fun list =>
      each list .typeParameter (readTypeParameter parts readReifiedMark) :=
  fun _ h => (Covers.each h (handles_typeParameter hp).lower).settles h (by decide)

theorem covers_typeParameters (h : Site (height + 1) rule node)
    (honce : atMostOnce rule .typeParameters) :
    Covers node [.typeParameters] (readTypeParameters parts node) :=
  Covers.listUnder h honce (handles_typeParameterList hp).lower

theorem handles_variantTypeParameterList :
    Handles (height + 1) .variantTypeParameters fun list =>
      each list .variantTypeParameter (readTypeParameter parts readVarianceMark) :=
  fun _ h => (Covers.each h (handles_variantTypeParameter hp).lower).settles h (by decide)

theorem covers_variantTypeParameters (h : Site (height + 1) rule node)
    (honce : atMostOnce rule .variantTypeParameters) :
    Covers node [.variantTypeParameters] (readVariantTypeParameters parts node) :=
  Covers.listUnder h honce (handles_variantTypeParameterList hp).lower

theorem covers_block (h : Site (height + 1) rule node) :
    Covers node [.statement] (readBlock parts node) :=
  Covers.each h hp.statement

theorem handles_block : Handles (height + 1) .block (readBlock parts) :=
  fun _ h => (covers_block hp h).settles h (by decide)

theorem handles_body : Handles (height + 1) .statementBody (readBody parts) := by
  intro node h
  obtain ⟨child, hchildren, hrule, hoff⟩ := h.only_child (by decide)
  have hchild := h.child (hchildren ▸ List.mem_cons_self)
  change child.rule ∈ [.block, .statement, .emptyStatement] at hrule
  simp only [List.mem_cons, List.not_mem_nil, or_false] at hrule
  refine Settles.congr ?_ hoff.symm
  simp only [readBody, first, hchildren, ok_bind]
  rcases hrule with hrule | hrule | hrule <;> rw [hrule] at hchild ⊢
  · exact (handles_block hp child (hchild.mono (Nat.le_succ _))).map _
  · exact hp.statement child hchild
  · exact (Settles.ok _).congr (by simpa using hchild.not_offends (by decide))

theorem handles_loopHeader : Handles (height + 1) .forEachCondition (readLoopHeader parts) := by
  intro node h
  have hc : Covers node _ (readLoopHeader parts node) :=
    (covers_declaredType h (by decide)).bind fun _ _ =>
      (Covers.nameOf h (by decide)).bind fun _ _ =>
        (Covers.one h (by decide) hp.expression).bind fun _ _ => .pure _
  exact hc.settles h (by decide)

end Parts

end QuovaKotlin.Reading

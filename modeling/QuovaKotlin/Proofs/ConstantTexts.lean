import QuovaKotlin.Proofs.ConstantNumbers
import QuovaKotlin.Proofs.ElementaryReadings

/-!
# Texts of constants

The text of a constant is that of the expression that numbering gives it. Numbering builds
expressions that no file contains: a number behind a value, and a value as the position of a bit.
Their texts are read as they were built, with two exceptions. Where the position of a bit is a shift
without parentheses, the two shifts are read from left to right. A three-way comparison is printed
as a call.
-/

set_option autoImplicit false

namespace QuovaKotlin.Ast

open Counting (State stateBehind)
open Text

namespace Expression

/-- Rendering takes expressions to texts. -/
theorem maps_rendered : Counting.Maps Expression.counting Rendered.counting rendered :=
  ⟨fun _ => rfl, fun _ _ => rfl, fun _ => rfl⟩

theorem renderEntries_eq (entries : List (ConstantEntry Expression)) :
    renderEntries entries = entries.map (·.map rendered) := by
  induction entries with
  | nil => rfl
  | cons entry entries ih =>
    rw [List.map_cons, ← ih]
    cases entry <;> rfl

end Expression

/-- `const val N: T = v` -/
def constantLine (type : PrimitiveType) (entry : ConstantEntry Expression) (initializer : String) :
    String :=
  "const val " ++ entry.name ++ ": " ++ type.kotlin ++ " = " ++ initializer

theorem constantLines_renderEntries (type : PrimitiveType) (bitfield : Bool)
    (entries : List (ConstantEntry Expression)) :
    constantLines type bitfield (Expression.renderEntries entries) =
      List.zipWith (constantLine type) entries
        ((constantValues bitfield entries).map Expression.kotlin) := by
  have hname (entry : ConstantEntry Expression) :
      (entry.map Expression.rendered).name = entry.name := by cases entry <;> rfl
  rw [constantLines, Expression.renderEntries_eq, Expression.maps_rendered.values, List.zip_map,
    List.map_map, List.map_zip_eq_zipWith, List.zipWith_map_right]
  congr 1
  funext entry value
  show "const val " ++ (entry.map Expression.rendered).name ++ _ ++ _ ++ _ ++ _ = _
  rw [hname]
  rfl

namespace Expression

theorem legible_number (n : Nat) : (integer (toString n)).Legible := by
  refine .integer (reads_digits ?_ (isDigit_toString n))
  rw [toList_toString]
  exact Nat.toDigits_ne_nil

/-- A shift without parentheses around it. -/
def isShift : Expression → Bool
  | .binary (.shift _) _ _ => true
  | _ => false

theorem isShift_iff {e : Expression} :
    e.isShift ↔ ∃ o ∈ e.operator?, o.rule = Source.Rule.shiftOperator := by
  cases e with
  | binary operator left right =>
    cases operator <;> simp [isShift, operator?, BinaryOperator.rule]
  | _ => simp [isShift, operator?]

/-- The bit at a position, with the position read from left to right. -/
def grafted : Expression → Expression
  | .binary (.shift operator) left right => .binary (.shift operator) left.grafted right
  | e => .binary (.shift .left) (.integer "1") e

theorem priority_grafted (e : Expression) : e.grafted.priority = Priority.shift := by
  unfold grafted
  split <;> rfl

/-- The two ways to group the shifts have one text. -/
theorem kotlin_grafted (e : Expression) :
    e.grafted.kotlin = (Expression.counting.bit e).kotlin := by
  fun_induction grafted e with
  | case1 operator left right ih =>
    have hgrafted : left.grafted.rendered.under Priority.shift =
        "1 shl " ++ left.rendered.under Priority.shift :=
      (Rendered.under_eq (Int.le_of_eq (priority_grafted left))).trans ih
    have hshift (e : Expression) : (binary (.shift operator) e right).kotlin =
        e.rendered.under Priority.shift ++ " " ++ (BinaryOperator.shift operator).symbol ++ " " ++
          right.rendered.under Priority.shift := rfl
    have hbit : (Expression.counting.bit (binary (.shift operator) left right)).kotlin =
        "1 shl " ++ (binary (.shift operator) left right).kotlin := rfl
    rw [hbit, hshift, hshift, hgrafted]
    simp only [String.append_assoc]
  | case2 e h => rfl

theorem Legible.bit {e : Expression} (h : e.Legible) (hshift : e.isShift = false) :
    (Expression.counting.bit e).Legible := by
  refine .binary (legible_number 1) h fun o ho hrule => ?_
  have hisShift := isShift_iff.mpr ⟨o, ho, hrule⟩
  rw [hshift] at hisShift
  cases hisShift

theorem Legible.grafted {e : Expression} (h : e.Legible) : e.grafted.Legible := by
  fun_induction Expression.grafted e with
  | case1 operator left right ih =>
    cases h with
    | binary hl hr hclass => exact .binary (ih hl) hr hclass
  | case2 e hnot =>
    refine h.bit ?_
    cases e with
    | binary operator left right =>
      cases operator with
      | shift operator => exact absurd rfl (hnot operator left right)
      | _ => rfl
    | _ => rfl

/-- Read from left to right, the position of the bit is not the shift that was written. -/
theorem bare_grafted_ne {e : Expression} (h : e.isShift) :
    e.grafted.bare ≠ (Expression.counting.bit e).bare := by
  have hbinary (e : Expression) : ∃ o l r, e.grafted.bare = binary o l r := by
    unfold grafted
    split <;> exact ⟨_, _, _, rfl⟩
  intro heq
  cases e with
  | binary operator left right =>
    cases operator with
    | shift operator =>
      obtain ⟨-, hleft, -⟩ := binary.inj heq
      obtain ⟨o, l, r, hbare⟩ := hbinary left
      rw [hbare] at hleft
      cases hleft
    | _ => cases h
  | _ => cases h

end Expression

/-- What holds of all values that are written holds of the last one that numbering carries. -/
theorem Counting.forall_last {α : Type} {P : α → Prop} {entries : List (ConstantEntry α)}
    (h : ∀ entry ∈ entries, ∀ value ∈ entry.given?, P value) (state : State α)
    (hstate : ∀ value ∈ state.last, P value) :
    ∀ value ∈ (entries.foldl State.behind state).last, P value := by
  induction entries generalizing state with
  | nil => exact hstate
  | cons entry entries ih =>
    obtain ⟨hentry, hentries⟩ := List.forall_mem_cons.mp h
    refine ih hentries (state.behind entry) ?_
    cases entry with
    | implicit => exact hstate
    | assigned | shifted => exact hentry

namespace Expression

/-- A number, and a number behind a value. -/
theorem legible_next {last : Option Expression} (h : ∀ value ∈ last, value.Legible)
    (offset : Nat) : (Expression.counting.next last offset).Legible := by
  cases last with
  | none => exact legible_number offset
  | some value => exact .binary (h value rfl) (legible_number offset) nofun

theorem isShift_next (last : Option Expression) (offset : Nat) :
    (Expression.counting.next last offset).isShift = false := by
  cases last <;> rfl

/-- The text of the expression, read by the levels of the source, is the expression. -/
def ReadsBack (e : Expression) : Prop :=
  (Regrouping.tree? (Lexical.lexemes e.kotlin)).map bare = some e.bare

theorem Legible.readsBack_iff {e : Expression} (h : e.Legible) :
    e.ReadsBack ↔ e.compares = false := by
  unfold ReadsBack
  cases hcompares : e.compares with
  | false =>
    obtain ⟨e', htree, hbare⟩ := h.tree?_kotlin hcompares
    rw [htree, Option.map_some, hbare]
    exact iff_of_true rfl rfl
  | true =>
    rw [h.tree?_eq_none hcompares]
    exact iff_of_false nofun nofun

/-- A bit whose position is a shift is read as another expression, or not at all. -/
theorem Legible.not_readsBack_bit {e : Expression} (h : e.Legible) (hshift : e.isShift) :
    ¬ (Expression.counting.bit e).ReadsBack := by
  unfold ReadsBack
  rw [← kotlin_grafted]
  cases hcompares : e.grafted.compares with
  | false =>
    obtain ⟨e', htree, hbare⟩ := h.grafted.tree?_kotlin hcompares
    rw [htree, Option.map_some, hbare]
    exact fun heq => bare_grafted_ne hshift (Option.some.inj heq)
  | true =>
    rw [h.grafted.tree?_eq_none hcompares]
    nofun

end Expression

/-- A bit whose position is a shift without parentheses. -/
def ConstantEntry.isDoubleShift : ConstantEntry Expression → Bool
  | .shifted _ position => position.isShift
  | _ => false

/-- The value of an entry is read back from its text, unless two shifts meet in it or it compares
three ways. -/
theorem readsBack_valueIn_iff (bitfield : Bool) {state : State Expression}
    {entry : ConstantEntry Expression} (hlast : ∀ value ∈ state.last, value.Legible)
    (hgiven : ∀ value ∈ entry.given?, value.Legible) :
    (Expression.counting.valueIn bitfield state entry).ReadsBack ↔ entry.isDoubleShift = false ∧
      (Expression.counting.valueIn bitfield state entry).compares = false := by
  have hlegible (h : (Expression.counting.valueIn bitfield state entry).Legible)
      (hentry : entry.isDoubleShift = false) :
      (Expression.counting.valueIn bitfield state entry).ReadsBack ↔ entry.isDoubleShift = false ∧
        (Expression.counting.valueIn bitfield state entry).compares = false := by
    rw [h.readsBack_iff]
    exact (and_iff_right hentry).symm
  cases entry with
  | assigned name value => exact hlegible (hgiven value rfl) rfl
  | implicit name =>
    have hnext := Expression.legible_next hlast state.offset
    cases bitfield with
    | true => exact hlegible (hnext.bit (Expression.isShift_next _ _)) rfl
    | false => exact hlegible hnext rfl
  | shifted name position =>
    have hposition := hgiven position rfl
    cases hshift : position.isShift with
    | false => exact hlegible (hposition.bit hshift) hshift
    | true =>
      refine iff_of_false (hposition.not_readsBack_bit hshift) fun h => ?_
      have hnot : position.isShift = false := h.1
      rw [hshift] at hnot
      cases hnot

/-- The constants of an enum in a file, with values of identifiers, integers, parentheses and infix
operators, are printed line by line. Grouped by the levels of the source, the tokens of the initial
value of a constant give its value, up to parentheses, exactly when the constant is not a bit whose
position is a shift without parentheses and its value has no three-way comparison, which is printed
as a call. -/
theorem constant_text_read_back_iff {text : String} {file : SourceFile}
    (h : Source.parse text = .ok file) {bitfield : Bool} {type : PrimitiveType}
    {entries : List (ConstantEntry Expression)}
    (hpart : file.Contains (.typeKind (.constants bitfield type entries)))
    (hvalues : ∀ entry ∈ entries, ∀ value ∈ entry.given?, value.OfIntegers) (name : String) :
    ∃ initializers : List String,
      (TypeKind.constants bitfield type entries).kotlin name =
        "object " ++ name ++ " \x7b\n" ++
          endEach "\n" (List.zipWith (constantLine type) entries initializers) ++ "\x7d" ∧
      initializers.length = entries.length ∧
      ∀ (i : Nat) (entry : ConstantEntry Expression), entries[i]? = some entry →
        ∃ initializer value, initializers[i]? = some initializer ∧
          (constantValues bitfield entries)[i]? = some value ∧
          ((Regrouping.tree? (Lexical.lexemes initializer)).map Expression.bare = some value.bare ↔
            entry.isDoubleShift = false ∧ value.compares = false) := by
  have hlegible : ∀ entry ∈ entries, ∀ value ∈ entry.given?, value.Legible := by
    intro entry hentry value hvalue
    refine legible_of_contains h (hvalues entry hentry value hvalue) (hpart.within ?_)
    refine .child (List.mem_map_of_mem hentry) (.child ?_ (.self _))
    cases entry with
    | implicit => cases hvalue
    | assigned | shifted =>
      cases hvalue
      exact List.mem_cons_self
  refine ⟨(constantValues bitfield entries).map Expression.kotlin, ?_, ?_, ?_⟩
  · rw [← constantLines_renderEntries]
    rfl
  · rw [List.length_map]
    exact Expression.counting.length_values bitfield entries
  · intro i entry hentry
    have hvalue : (constantValues bitfield entries)[i]? = some (Expression.counting.valueIn bitfield
        (stateBehind (entries.take i)) entry) := Expression.counting.getElem?_values bitfield hentry
    have hlast : ∀ value ∈ (stateBehind (entries.take i)).last, value.Legible :=
      Counting.forall_last (fun entry hmem => hlegible entry (List.mem_of_mem_take hmem)) .start
        nofun
    refine ⟨_, _, ?_, hvalue,
      readsBack_valueIn_iff bitfield hlast (hlegible entry (List.mem_of_getElem? hentry))⟩
    rw [List.getElem?_map, hvalue, Option.map_some]

/-- The tree of `enum A : int { B << 1 << 2, C = x + 1, D }`. -/
def constantsTree : Reading.Node :=
  .node .quovaFile ⟨0, 42⟩ [.node .declaration ⟨0, 42⟩ [.node .typeDeclaration ⟨0, 42⟩ [
    .node .primitiveEnumDeclaration ⟨0, 42⟩ [.token .kwEnum ⟨0, 4⟩ "enum",
      .token .simpleIdentifier ⟨5, 6⟩ "A", .token .primitiveTypeNoArray ⟨9, 12⟩ "int",
      .node .primitiveEnumEntry ⟨15, 26⟩ [.token .simpleIdentifier ⟨15, 16⟩ "B",
        .node .primitiveEnumValue ⟨17, 26⟩ [.node .enumShift ⟨17, 19⟩ [],
          .node .expression ⟨20, 26⟩ [.node .operatorExpression ⟨20, 26⟩ [
            .node .literal ⟨20, 21⟩ [.token .integerLiteral ⟨20, 21⟩ "1"],
            .token .shiftOperator ⟨22, 24⟩ "<<",
            .node .literal ⟨25, 26⟩ [.token .integerLiteral ⟨25, 26⟩ "2"]]]]],
      .node .primitiveEnumEntry ⟨28, 37⟩ [.token .simpleIdentifier ⟨28, 29⟩ "C",
        .node .primitiveEnumValue ⟨30, 37⟩ [.node .enumAssign ⟨30, 31⟩ [],
          .node .expression ⟨32, 37⟩ [.node .operatorExpression ⟨32, 37⟩ [
            .token .simpleIdentifier ⟨32, 33⟩ "x", .token .sumOperator ⟨34, 35⟩ "+",
            .node .literal ⟨36, 37⟩ [.token .integerLiteral ⟨36, 37⟩ "1"]]]]],
      .node .primitiveEnumEntry ⟨39, 41⟩ [.token .simpleIdentifier ⟨39, 40⟩ "D"]]]],
    .node .endOfInput ⟨42, 42⟩ []]

def constantsEntries : List (ConstantEntry Expression) := [
  .shifted "B" (.binary (.shift .left) (.integer "1") (.integer "2")),
  .assigned "C" (.binary (.sum .plus) (.identifier "x") (.integer "1")),
  .implicit "D"]

def constantsFile : SourceFile where
  shebang := none
  package := none
  imports := [.standardLibrary, .integerAlias]
  declarations := [.type [] .internalAccess "A" (.constants false ⟨.int, false⟩ constantsEntries)]

theorem parse_constants :
    Source.parse "enum A : int \x7b B << 1 << 2, C = x + 1, D \x7d" = .ok constantsFile :=
  Source.parse_of_toOption constantsTree (by decide +kernel) rfl

theorem constantsFile_contains :
    constantsFile.Contains (.typeKind (.constants false ⟨.int, false⟩ constantsEntries)) :=
  ⟨_, List.mem_cons_self, .child List.mem_cons_self (.self _)⟩

theorem constantsEntries_ofIntegers :
    ∀ entry ∈ constantsEntries, ∀ value ∈ entry.given?, value.OfIntegers := by
  simp only [constantsEntries, List.forall_mem_cons]
  refine ⟨?_, ?_, nofun, nofun⟩
  · rintro value ⟨⟩
    exact .binary _ (.integer _) (.integer _)
  · rintro value ⟨⟩
    exact .binary _ (.identifier _) (.integer _)

/-- The first of the constants is read as another value, and the others as their own. -/
theorem constantsEntries_read_back :
    Source.parse "enum A : int \x7b B << 1 << 2, C = x + 1, D \x7d" = .ok constantsFile ∧
    constantsFile.Contains (.typeKind (.constants false ⟨.int, false⟩ constantsEntries)) ∧
    (∀ entry ∈ constantsEntries, ∀ value ∈ entry.given?, value.OfIntegers) ∧
    ∃ initializers : List String,
      "object A \x7b\nconst val B: Int = 1 shl 1 shl 2\n" ++
          "const val C: Int = x + 1\nconst val D: Int = x + 1 + 1\n\x7d" =
        "object A \x7b\n" ++
          endEach "\n" (List.zipWith (constantLine ⟨.int, false⟩) constantsEntries initializers) ++
            "\x7d" ∧
      initializers.length = 3 ∧
      ∀ (i : Nat) (entry : ConstantEntry Expression), constantsEntries[i]? = some entry →
        ∃ initializer value, initializers[i]? = some initializer ∧
          (constantValues false constantsEntries)[i]? = some value ∧
          ((Regrouping.tree? (Lexical.lexemes initializer)).map Expression.bare = some value.bare ↔
            entry.isDoubleShift = false ∧ value.compares = false) :=
  ⟨parse_constants, constantsFile_contains, constantsEntries_ofIntegers,
    constant_text_read_back_iff parse_constants constantsFile_contains constantsEntries_ofIntegers
      "A"⟩

end QuovaKotlin.Ast

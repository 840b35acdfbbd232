import QuovaKotlin.Proofs.NestedBrackets
import QuovaKotlin.Proofs.TypeTexts

/-!
# Call chains and their text

A chain is an identifier with call after call behind it. A call can have type arguments, and its
arguments are identifiers and lambdas. In the text a last lambda stands behind the parentheses of
its call, so the border between two calls can get lost: `f(a)` called with a lambda is printed like
`f` called with `a` and that lambda. The main statement says that nothing else gets lost.
-/

set_option autoImplicit false

namespace QuovaKotlin.Ast

open Text
open Lexical (isWordChar OffWord)

/-- An argument of a call in a chain. -/
inductive ChainArgument
  | name (text : String)
  | lambda (parameters : List LambdaParameter) (body : LambdaBody)

def ChainArgument.value : ChainArgument → Expression
  | name text => .identifier text
  | lambda parameters body => .lambda parameters body

def ChainArgument.isLambda : ChainArgument → Bool
  | name _ => false
  | lambda .. => true

structure ChainCall where
  typeArguments : List TypeArgument
  arguments : List ChainArgument

def ChainCall.operator (call : ChainCall) : PostfixOperator :=
  .invocation call.typeArguments (call.arguments.map (.positional ·.value))

/-- `operand` with call after call behind it. -/
def Expression.called (operand : Expression) : List ChainCall → Expression
  | [] => operand
  | call :: calls => Expression.called (.suffixed operand call.operator) calls

/-- What follows the brace that closes the first of `depth` open ones. -/
def behindBraces : Nat → List Char → Option (List Char)
  | _, [] => none
  | depth, x :: rest =>
    if x = '\x7b' then behindBraces (depth + 1) rest
    else if x = '\x7d' then if depth ≤ 1 then some rest else behindBraces (depth - 1) rest
    else behindBraces depth rest

/-- The first character of a text is a brace, and the last one closes it. -/
def Enclosed (w : List Char) : Prop :=
  ∃ u, w = '\x7b' :: u ∧ behindBraces 1 u = some []

/-- A text that is one word. -/
def IsWord (w : List Char) : Prop :=
  w ≠ [] ∧ ∀ x ∈ w, isWordChar x

/-- Identifiers are words, and no literal in a lambda hides one of its braces. -/
def ChainArgument.IsLegible : ChainArgument → Prop
  | name text => IsWord text.toList
  | lambda parameters body => Enclosed (Expression.lambda parameters body).kotlin.toList

structure ChainCall.IsLegible (call : ChainCall) : Prop where
  types : ∀ name ∈ TypeArgument.wordsEach call.typeArguments, IsDotted name
  arguments : ∀ argument ∈ call.arguments, argument.IsLegible

/-- An identifier with any number of calls behind it. -/
structure CallChain where
  callee : String
  calls : List ChainCall
  isWord_callee : IsWord callee.toList
  isLegible : ∀ call ∈ calls, call.IsLegible

def CallChain.expression (chain : CallChain) : Expression :=
  Expression.called (.identifier chain.callee) chain.calls

/-- Nested brackets close all braces that they open. -/
theorem behindBraces_of_nested {w : List Char} (h : Nested w) (depth : Nat) (rest : List Char) :
    behindBraces (depth + 1) (w ++ rest) = behindBraces (depth + 1) rest := by
  induction h generalizing depth rest with
  | nil => rfl
  | @plain c hc =>
    have hopen : c ≠ '\x7b' := by
      rintro rfl
      cases hc
    have hclose : c ≠ '\x7d' := by
      rintro rfl
      cases hc
    rw [List.singleton_append, behindBraces, if_neg hopen, if_neg hclose]
  | @enclosed c d u hd _ ih =>
    rw [List.cons_append, List.append_assoc, List.singleton_append]
    unfold closer? at hd
    -- Only the second pair of brackets changes the depth, and it changes it back.
    split at hd <;> cases hd <;> simp [behindBraces, ih]
  | append _ _ ihu ihv => rw [List.append_assoc, ihu, ihv]

theorem enclosed_of_balanced {inner : String} (h : Balanced inner) :
    Enclosed ("\x7b" ++ inner ++ "\x7d").toList := by
  refine ⟨inner.toList ++ ['\x7d'], ?_, behindBraces_of_nested h.nested 0 _⟩
  rw [String.toList_append, String.toList_append]
  rfl

/-- A lambda is legible if no word in it holds a bracket. -/
theorem ChainArgument.isLegible_lambda {parameters : List LambdaParameter} {body : LambdaBody}
    (h : (Part.expression (.lambda parameters body)).Every (AllFree ·.words)) :
    (ChainArgument.lambda parameters body).IsLegible := by
  have hparts : PartsBalanced (Expression.lambda parameters body).parts :=
    fun child hchild => Part.isBalanced fun inner hinner =>
      h.of_within (Part.Within.child hchild hinner)
  obtain ⟨inner, htext, hinner⟩ := Expression.kotlin_lambda hparts
  show Enclosed (Expression.lambda parameters body).kotlin.toList
  rw [htext]
  exact enclosed_of_balanced hinner

/-- An argument as far as its text shows it. -/
structure Shown where
  isLambda : Bool
  text : String
  deriving DecidableEq

def Shown.chars (argument : Shown) : List Char :=
  argument.text.toList

def ChainArgument.shown (argument : ChainArgument) : Shown :=
  ⟨argument.isLambda, argument.value.kotlin⟩

/-- A call as far as its text shows it; its type arguments are normal types. -/
structure ShownCall where
  typeArguments : List TypeArgument
  arguments : List Shown

def ChainCall.shown (call : ChainCall) : ShownCall :=
  ⟨TypeArgument.normalEach call.typeArguments, call.arguments.map ChainArgument.shown⟩

/-- A call that has arguments, the last of them no lambda. -/
def ShownCall.takesLambda (call : ShownCall) : Bool :=
  match call.arguments.getLast? with
  | none => false
  | some last => ! last.isLambda

/-- A call with one lambda and nothing else. -/
def ShownCall.isLoneLambda : ShownCall → Bool
  | ⟨[], [argument]⟩ => argument.isLambda
  | _ => false

/-- A lone lambda behind a call that takes one becomes the last argument of that call. -/
def mergeCalls : List ShownCall → List ShownCall
  | [] => []
  | [call] => [call]
  | call :: next :: calls =>
    if call.takesLambda && next.isLoneLambda then
      ⟨call.typeArguments, call.arguments ++ next.arguments⟩ :: mergeCalls calls
    else call :: mergeCalls (next :: calls)

/-- The calls of a chain as its text shows them. -/
def CallChain.shownCalls (chain : CallChain) : List ShownCall :=
  chain.calls.map ChainCall.shown

/-- A call is written as parentheses with arguments, as a lambda, or as one behind the other. The
first of them has the type arguments of the call in front of it. -/
inductive ChainPiece
  | group (types : List TypeArgument) (arguments : List Shown)
  | behind (types : List TypeArgument) (argument : Shown)

def ChainPiece.types : ChainPiece → List TypeArgument
  | group types _ | behind types _ => types

/-- What follows the type arguments. -/
def ChainPiece.body : ChainPiece → List Char
  | group _ arguments => '(' :: (row (arguments.map Shown.chars) ++ [')'])
  | behind _ argument => ' ' :: argument.chars

def ChainPiece.text (piece : ChainPiece) : List Char :=
  angleChars (piece.types.map TypeArgument.chars) ++ piece.body

/-- The pieces of a call. -/
def ShownCall.pieces (call : ShownCall) : List ChainPiece :=
  match call.arguments.getLast? with
  | none => [.group call.typeArguments []]
  | some last =>
    if last.isLambda then
      if call.arguments.dropLast.isEmpty then [.behind call.typeArguments last]
      else [.group call.typeArguments call.arguments.dropLast, .behind [] last]
    else [.group call.typeArguments call.arguments]

def piecesText (pieces : List ChainPiece) : List Char :=
  pieces.flatMap ChainPiece.text

theorem kotlinEach_positional (arguments : List ChainArgument) :
    Argument.kotlinEach (arguments.map (.positional ·.value)) =
      arguments.map (·.shown.text) := by
  have htext (argument : ChainArgument) :
      (Argument.positional argument.value).kotlin = "" ++ argument.value.kotlin := rfl
  rw [Argument.kotlinEach_eq_map, List.map_map]
  refine List.map_congr_left fun argument _ => ?_
  rw [Function.comp_apply, htext, String.empty_append]
  rfl

theorem isPositionalLambda_positional (argument : ChainArgument) :
    (Argument.positional argument.value).isPositionalLambda = argument.isLambda := by
  cases argument <;> rfl

theorem toList_operator (call : ChainCall) :
    call.operator.kotlin.toList = piecesText call.shown.pieces := by
  obtain ⟨types, arguments⟩ := call
  have hangle : (angleList (TypeArgument.kotlinEach types)).toList =
      angleChars ((TypeArgument.normalEach types).map TypeArgument.chars) := by
    rw [← toList_angleList, TypeArgument.kotlin_normalEach]
  have hcommas (arguments : List ChainArgument) :
      (commas (arguments.map (·.shown.text))).toList =
        row ((arguments.map (·.shown)).map Shown.chars) := by
    rw [toList_commas_eq_row, List.map_map, List.map_map]
    rfl
  show (angleList (TypeArgument.kotlinEach types) ++
    callList (arguments.map (.positional ·.value))
      (Argument.kotlinEach (arguments.map (.positional ·.value)))).toList = _
  rw [String.toList_append, hangle, kotlinEach_positional]
  rcases arguments.eq_nil_or_concat with rfl | ⟨init, last, rfl⟩
  · simp [callList, ChainCall.shown, ShownCall.pieces, piecesText, ChainPiece.text,
      ChainPiece.types, ChainPiece.body, commas, joinWith, row]
  · simp only [callList, ChainCall.shown, ShownCall.pieces, List.concat_eq_append,
      List.map_append, List.map_cons, List.map_nil, List.getLast?_concat, List.dropLast_concat,
      isPositionalLambda_positional]
    have hshown : last.shown.isLambda = last.isLambda := rfl
    rw [hshown]
    cases hlast : last.isLambda with
    | true =>
      cases init with
      | nil =>
        simp [onlyIf, piecesText, ChainPiece.text, ChainPiece.types, ChainPiece.body, Shown.chars]
      | cons a init =>
        have h := hcommas (a :: init)
        simp only [List.map_cons] at h
        simp [onlyIf, piecesText, ChainPiece.text, ChainPiece.types, ChainPiece.body, angleChars,
          Shown.chars, h]
    | false =>
      have h := hcommas (init ++ [last])
      simp only [List.map_append, List.map_cons, List.map_nil] at h
      simp [piecesText, ChainPiece.text, ChainPiece.types, ChainPiece.body, h]

/-- Calls are suffixes, so no operand in a chain takes parentheses. -/
theorem toList_suffixed (operand : Expression) (call : ChainCall)
    (h : operand.priority ≤ Priority.suffixed) :
    (Expression.suffixed operand call.operator).kotlin.toList =
      operand.kotlin.toList ++ piecesText call.shown.pieces := by
  have hunder : Rendered.under ⟨operand.priority, operand.kotlin⟩ Priority.suffixed =
      operand.kotlin := if_neg (Int.not_lt.mpr h)
  have htext : (Expression.suffixed operand call.operator).kotlin =
      Rendered.under ⟨operand.priority, operand.kotlin⟩ Priority.suffixed ++
        call.operator.kotlin := rfl
  rw [htext, hunder, String.toList_append, toList_operator]

theorem toList_called (operand : Expression) (calls : List ChainCall)
    (h : operand.priority ≤ Priority.suffixed) :
    (Expression.called operand calls).kotlin.toList =
      operand.kotlin.toList ++
        piecesText ((calls.map ChainCall.shown).flatMap ShownCall.pieces) := by
  induction calls generalizing operand with
  | nil => simp [Expression.called, piecesText]
  | cons call calls ih =>
    rw [Expression.called, ih _ ?_, toList_suffixed operand call h]
    · simp [piecesText]
    · rw [Expression.priority]

theorem behindBraces_append {depth : Nat} {w rest view : List Char}
    (h : behindBraces depth w = some rest) :
    behindBraces depth (w ++ view) = some (rest ++ view) := by
  induction w generalizing depth with
  | nil => cases h
  | cons x w ih =>
    rw [List.cons_append]
    simp only [behindBraces] at h ⊢
    split at h
    · next hopen =>
      rw [if_pos hopen]
      exact ih h
    · next hopen =>
      rw [if_neg hopen]
      split at h
      · next hclose =>
        rw [if_pos hclose]
        split at h
        · next hdepth =>
          obtain rfl : w = rest := Option.some.inj h
          rw [if_pos hdepth]
        · next hdepth =>
          rw [if_neg hdepth]
          exact ih h
      · next hclose =>
        rw [if_neg hclose]
        exact ih h

/-- Where the first brace of a text is closed does not depend on what follows. -/
theorem Enclosed.append_inj {w w' u v : List Char} (h : Enclosed w) (h' : Enclosed w')
    (heq : w ++ u = w' ++ v) : w = w' ∧ u = v := by
  obtain ⟨x, rfl, hx⟩ := h
  obtain ⟨y, rfl, hy⟩ := h'
  have htail : x ++ u = y ++ v := (List.cons.inj heq).2
  have hu : behindBraces 1 (x ++ u) = some u := behindBraces_append hx
  have hv : behindBraces 1 (y ++ v) = some v := behindBraces_append hy
  rw [htail, hv] at hu
  obtain rfl : v = u := Option.some.inj hu
  exact ⟨List.append_cancel_right heq, rfl⟩

theorem IsWord.append_inj {w w' u v : List Char} (h : IsWord w) (h' : IsWord w')
    (hu : OffWord u) (hv : OffWord v) (heq : w ++ u = w' ++ v) : w = w' ∧ u = v := by
  have hw : (w ++ u).takeWhile isWordChar = w := Lexical.takeWhile_append_of_head h.2 hu
  have hw' : (w' ++ v).takeWhile isWordChar = w' := Lexical.takeWhile_append_of_head h'.2 hv
  obtain rfl : w = w' := by rw [← hw, heq, hw']
  exact ⟨rfl, List.append_cancel_left heq⟩

/-- The text of an argument shows whether it is a lambda and where it ends. -/
def Shown.IsLegible (argument : Shown) : Prop :=
  if argument.isLambda then Enclosed argument.chars else IsWord argument.chars

theorem ChainArgument.IsLegible.shown {argument : ChainArgument} (h : argument.IsLegible) :
    argument.shown.IsLegible := by
  cases argument with
  | name text => exact h
  | lambda parameters body => exact h

/-- An argument starts with a part of a word or with a brace. -/
theorem Shown.IsLegible.head {argument : Shown} (h : argument.IsLegible) :
    ∃ x u, argument.chars = x :: u ∧ if argument.isLambda then x = '\x7b' else isWordChar x := by
  unfold Shown.IsLegible at h
  split at h
  · next hlambda =>
    obtain ⟨u, hu, -⟩ := h
    exact ⟨'\x7b', u, hu, by rw [if_pos hlambda]⟩
  · next hname =>
    obtain ⟨x, u, hu⟩ := List.exists_cons_of_ne_nil h.1
    refine ⟨x, u, hu, ?_⟩
    rw [if_neg hname]
    exact h.2 x (by rw [hu]; exact List.mem_cons_self)

theorem not_isWordChar_brace : ¬ isWordChar '\x7b' := by decide

theorem Shown.append_inj {a b : Shown} {u v : List Char} (ha : a.IsLegible) (hb : b.IsLegible)
    (hu : OffWord u) (hv : OffWord v) (heq : a.chars ++ u = b.chars ++ v) : a = b ∧ u = v := by
  obtain ⟨x, _, hx, hxkind⟩ := ha.head
  obtain ⟨y, _, hy, hykind⟩ := hb.head
  obtain rfl : x = y := by
    rw [hx, hy] at heq
    exact (List.cons.inj heq).1
  obtain ⟨aLambda, aText⟩ := a
  obtain ⟨bLambda, bText⟩ := b
  -- The first character tells lambdas and names apart.
  have hkind : aLambda = bLambda := by
    cases aLambda <;> cases bLambda <;> simp_all [not_isWordChar_brace]
  subst hkind
  have htexts : aText.toList = bText.toList ∧ u = v := by
    cases aLambda with
    | true => exact Enclosed.append_inj ha hb heq
    | false => exact IsWord.append_inj ha hb hu hv heq
  obtain ⟨htext, rfl⟩ := htexts
  obtain rfl := String.toList_inj.mp htext
  exact ⟨rfl, rfl⟩

/-! ## Reading the pieces back -/

theorem isStop_of_isWordChar {c : Char} (h : isWordChar c) : isStop c = false :=
  isStop_of_start (.inl (Bool.or_eq_true_iff.mpr (.inl h)))

theorem Stops.offWord {rest : List Char} (h : Stops rest) : OffWord rest := by
  intro c hc hword
  have hstop := h c hc
  rw [isStop_of_isWordChar hword] at hstop
  cases hstop

theorem Shown.IsLegible.told {argument : Shown} (h : argument.IsLegible) :
    Told Shown.chars Shown.IsLegible argument :=
  fun _ _ _ hother hr hr' heq => Shown.append_inj h hother hr.offWord hr'.offWord heq

theorem Shown.IsLegible.start_not_stop (argument : Shown) (h : argument.IsLegible) :
    ∃ c w, argument.chars = c :: w ∧ isStop c = false := by
  obtain ⟨c, w, hchars, hkind⟩ := h.head
  refine ⟨c, w, hchars, ?_⟩
  split at hkind
  · rw [hkind]
    rfl
  · exact isStop_of_isWordChar hkind

/-- The arguments in a piece are legible, and only a lambda stands behind parentheses. -/
def ChainPiece.IsLegible : ChainPiece → Prop
  | group types arguments => (∀ type ∈ types, type.Clear) ∧ ∀ a ∈ arguments, a.IsLegible
  | behind types argument =>
    (∀ type ∈ types, type.Clear) ∧ argument.isLambda ∧ argument.IsLegible

theorem ChainPiece.IsLegible.clear {piece : ChainPiece} (h : piece.IsLegible) :
    ∀ type ∈ piece.types, type.Clear := by
  cases piece with
  | group types arguments => exact h.1
  | behind types argument => exact h.1

theorem ChainPiece.exists_text (piece : ChainPiece) :
    ∃ c w, piece.text = c :: w ∧ ¬ isWordChar c := by
  have hangle (type : TypeArgument) (types : List TypeArgument) (body : List Char) :
      ∃ c w, angleChars ((type :: types).map TypeArgument.chars) ++ body = c :: w ∧
        ¬ isWordChar c := ⟨'<', _, rfl, by decide⟩
  cases piece with
  | group types arguments =>
    cases types with
    | nil => exact ⟨'(', _, rfl, by decide⟩
    | cons type types => exact hangle type types _
  | behind types argument =>
    cases types with
    | nil => exact ⟨' ', _, rfl, by decide⟩
    | cons type types => exact hangle type types _

theorem offWord_piecesText (pieces : List ChainPiece) : OffWord (piecesText pieces) := by
  intro x hx
  cases pieces with
  | nil => cases hx
  | cons piece pieces =>
    obtain ⟨c, w, htext, hc⟩ := piece.exists_text
    rw [piecesText, List.flatMap_cons, htext] at hx
    cases hx
    exact hc

theorem ChainPiece.body_ne_angle (piece : ChainPiece) (u v : List Char) :
    piece.body ++ u ≠ '<' :: v := by
  cases piece <;> exact fun h => absurd (List.cons.inj h).1 (by decide)

theorem ChainPiece.text_inj {p q : ChainPiece} {u v : List Char} (hp : p.IsLegible)
    (hq : q.IsLegible) (hu : OffWord u) (hv : OffWord v) (heq : p.text ++ u = q.text ++ v) :
    p = q ∧ u = v := by
  rw [text, text, List.append_assoc, List.append_assoc] at heq
  obtain ⟨htypes, hbody⟩ := angleChars_inj hp.clear (fun type hmem => (hp.clear type hmem).told)
    hq.clear (p.body_ne_angle u) (q.body_ne_angle v) heq
  cases p with
  | group types xs =>
    cases q with
    | group types' ys =>
      obtain rfl : types = types' := htypes
      simp only [body, List.cons_append, List.append_assoc, List.nil_append, List.cons.injEq,
        true_and] at hbody
      obtain ⟨rfl, hrest⟩ := row_told rfl (by decide) Shown.IsLegible.start_not_stop hp.2
        (fun a ha => (hp.2 a ha).told) hq.2 hbody
      exact ⟨rfl, hrest⟩
    | behind types' b => exact absurd (List.cons.inj hbody).1 (by decide)
  | behind types a =>
    cases q with
    | group types' ys => exact absurd (List.cons.inj hbody).1 (by decide)
    | behind types' b =>
      obtain rfl : types = types' := htypes
      obtain ⟨rfl, hrest⟩ := Shown.append_inj hp.2.2 hq.2.2 hu hv (List.cons.inj hbody).2
      exact ⟨rfl, hrest⟩

theorem piecesText_inj {ps qs : List ChainPiece} (hps : ∀ p ∈ ps, p.IsLegible)
    (hqs : ∀ q ∈ qs, q.IsLegible) (heq : piecesText ps = piecesText qs) : ps = qs := by
  have hcons (p : ChainPiece) (ps : List ChainPiece) :
      piecesText (p :: ps) = p.text ++ piecesText ps := rfl
  have hempty (p : ChainPiece) (ps : List ChainPiece) : [] ≠ piecesText (p :: ps) := by
    obtain ⟨c, w, htext, -⟩ := p.exists_text
    rw [hcons, htext]
    exact (List.cons_ne_nil c _).symm
  induction ps generalizing qs with
  | nil =>
    cases qs with
    | nil => rfl
    | cons q qs => exact absurd heq (hempty q qs)
  | cons p ps ih =>
    cases qs with
    | nil => exact absurd heq.symm (hempty p ps)
    | cons q qs =>
      obtain ⟨hp, hlater⟩ := List.forall_mem_cons.mp hps
      obtain ⟨hq, hlater'⟩ := List.forall_mem_cons.mp hqs
      rw [hcons, hcons] at heq
      obtain ⟨rfl, hrest⟩ := ChainPiece.text_inj hp hq (offWord_piecesText ps)
        (offWord_piecesText qs) heq
      rw [ih hlater hlater' hrest]

/-- The calls that pieces stand for, if a lambda belongs to the parentheses in front of it. Empty
parentheses are written only where no lambda was among the arguments, and no type arguments stand
between the parentheses and the lambda of one call. -/
def callsOf : List ChainPiece → List ShownCall
  | [] => []
  | .group types [] :: pieces => ⟨types, []⟩ :: callsOf pieces
  | .group types (a :: arguments) :: .behind [] last :: pieces =>
    ⟨types, a :: arguments ++ [last]⟩ :: callsOf pieces
  | .group types arguments :: pieces => ⟨types, arguments⟩ :: callsOf pieces
  | .behind types argument :: pieces => ⟨types, [argument]⟩ :: callsOf pieces

namespace ShownCall

theorem pieces_concat (types : List TypeArgument) (a : Shown) (init : List Shown) {last : Shown}
    (h : last.isLambda) :
    (ShownCall.mk types (a :: init ++ [last])).pieces =
      [.group types (a :: init), .behind [] last] := by
  rw [pieces, List.getLast?_concat]
  simp only [h, if_true, List.dropLast_concat]
  rfl

theorem pieces_lambda (types : List TypeArgument) {last : Shown} (h : last.isLambda) :
    (ShownCall.mk types [last]).pieces = [.behind types last] := by
  simp [pieces, h]

/-- A call is written in one of three ways. -/
theorem pieces_cases (call : ShownCall) :
    (∃ types a init last, call = ⟨types, a :: init ++ [last]⟩ ∧ last.isLambda ∧
      call.pieces = [.group types (a :: init), .behind [] last]) ∨
    (∃ types last, call = ⟨types, [last]⟩ ∧ last.isLambda ∧
      call.pieces = [.behind types last]) ∨
    (call.arguments = [] ∨ call.takesLambda) ∧
      call.pieces = [.group call.typeArguments call.arguments] := by
  obtain ⟨types, arguments⟩ := call
  rcases arguments.eq_nil_or_concat with rfl | ⟨init, last, rfl⟩
  · exact .inr (.inr ⟨.inl rfl, rfl⟩)
  · rw [List.concat_eq_append]
    cases hlast : last.isLambda with
    | true =>
      cases init with
      | nil => exact .inr (.inl ⟨types, last, rfl, hlast, pieces_lambda types hlast⟩)
      | cons a init =>
        exact .inl ⟨types, a, init, last, rfl, hlast, pieces_concat types a init hlast⟩
    | false =>
      refine .inr (.inr ⟨.inr ?_, ?_⟩)
      · simp [takesLambda, hlast]
      · simp [pieces, hlast]

theorem takesLambda_concat (types : List TypeArgument) (init : List Shown) (last : Shown) :
    (ShownCall.mk types (init ++ [last])).takesLambda = ! last.isLambda := by
  simp [takesLambda]

/-- A call that takes a lambda has all its arguments in parentheses. -/
theorem pieces_of_takesLambda {call : ShownCall} (h : call.takesLambda) :
    ∃ a arguments, call.arguments = a :: arguments ∧
      call.pieces = [.group call.typeArguments (a :: arguments)] := by
  rcases call.pieces_cases with ⟨types, a, init, last, rfl, hlast, -⟩ |
    ⟨types, last, rfl, hlast, -⟩ | ⟨-, hp⟩
  · rw [takesLambda_concat, hlast] at h
    cases h
  · simp [takesLambda, hlast] at h
  · obtain ⟨types, arguments⟩ := call
    cases arguments with
    | nil => cases h
    | cons a arguments => exact ⟨a, arguments, rfl, hp⟩

theorem isLoneLambda_iff {call : ShownCall} :
    call.isLoneLambda ↔ ∃ a, call = ⟨[], [a]⟩ ∧ a.isLambda := by
  constructor
  · intro h
    unfold isLoneLambda at h
    split at h
    · next a => exact ⟨a, rfl, h⟩
    · cases h
  · rintro ⟨a, rfl, ha⟩
    exact ha

end ShownCall

/-- Without a lambda behind it a group of arguments is a call. -/
theorem callsOf_group {types : List TypeArgument} {arguments : List Shown}
    {pieces : List ChainPiece}
    (h : arguments = [] ∨ ∀ last rest, pieces ≠ .behind [] last :: rest) :
    callsOf (.group types arguments :: pieces) = ⟨types, arguments⟩ :: callsOf pieces := by
  cases arguments with
  | nil => rw [callsOf]
  | cons a arguments =>
    have hpieces := h.resolve_left (List.cons_ne_nil a arguments)
    cases pieces with
    | nil => simp [callsOf]
    | cons piece pieces =>
      cases piece with
      | group => simp [callsOf]
      | behind types' last =>
        cases types' with
        | nil => exact absurd rfl (hpieces last pieces)
        | cons => simp [callsOf]

/-- Reading the pieces of a chain back gives its calls, the lone lambdas merged. -/
theorem callsOf_flatMap (calls : List ShownCall) :
    callsOf (calls.flatMap ShownCall.pieces) = mergeCalls calls := by
  have hcons (call : ShownCall) (calls : List ShownCall) :
      (call :: calls).flatMap ShownCall.pieces =
        call.pieces ++ calls.flatMap ShownCall.pieces := rfl
  induction calls using mergeCalls.induct with
  | case1 => rfl
  | case2 call =>
    rcases call.pieces_cases with ⟨types, a, init, last, rfl, -, hp⟩ | ⟨types, last, rfl, -, hp⟩ |
      ⟨-, hp⟩
    · rw [hcons, hp]
      simp [callsOf, mergeCalls]
    · rw [hcons, hp]
      simp [callsOf, mergeCalls]
    · rw [hcons, hp, List.flatMap_nil, List.append_nil, callsOf_group (by simp)]
      rfl
  | case3 call next calls hmerge ih =>
    obtain ⟨htakes, hlone⟩ := Bool.and_eq_true_iff.mp hmerge
    obtain ⟨last, rfl, hlast⟩ := ShownCall.isLoneLambda_iff.mp hlone
    obtain ⟨a, arguments, harguments, hp⟩ := ShownCall.pieces_of_takesLambda htakes
    rw [mergeCalls, if_pos hmerge, ← ih, hcons, hcons, hp, ShownCall.pieces_lambda [] hlast,
      harguments]
    simp [callsOf]
  | case4 call next calls hmerge ih =>
    rw [mergeCalls, if_neg hmerge, ← ih, hcons]
    rcases call.pieces_cases with ⟨types, a, init, last, rfl, -, hp⟩ | ⟨types, last, rfl, -, hp⟩ |
      ⟨htakes, hp⟩
    · rw [hp]
      simp [callsOf]
    · rw [hp]
      simp [callsOf]
    · rw [hp, List.singleton_append]
      refine callsOf_group (htakes.imp_right fun htakes last rest heq => ?_)
      -- Only a lone lambda is written without parentheses and type arguments.
      rw [hcons] at heq
      have hlone : next.isLoneLambda = false := by simpa [htakes] using hmerge
      rcases next.pieces_cases with ⟨types, a, init, last', rfl, -, hp'⟩ |
        ⟨types, last', rfl, hlast', hp'⟩ | ⟨-, hp'⟩
      · rw [hp'] at heq
        cases heq
      · rw [hp'] at heq
        cases heq
        rw [ShownCall.isLoneLambda, hlast'] at hlone
        cases hlone
      · rw [hp'] at heq
        cases heq

/-- Merging changes no piece of the text. -/
theorem flatMap_mergeCalls (calls : List ShownCall) :
    (mergeCalls calls).flatMap ShownCall.pieces = calls.flatMap ShownCall.pieces := by
  fun_induction mergeCalls calls with
  | case1 => rfl
  | case2 call => rfl
  | case3 call next calls hmerge ih =>
    obtain ⟨htakes, hlone⟩ := Bool.and_eq_true_iff.mp hmerge
    obtain ⟨last, rfl, hlast⟩ := ShownCall.isLoneLambda_iff.mp hlone
    obtain ⟨a, arguments, harguments, hp⟩ := ShownCall.pieces_of_takesLambda htakes
    rw [List.flatMap_cons, List.flatMap_cons, List.flatMap_cons, ih, hp,
      ShownCall.pieces_lambda [] hlast, harguments, ShownCall.pieces_concat _ a arguments hlast]
    rfl
  | case4 call next calls _ ih =>
    rw [List.flatMap_cons, ih]
    rfl

theorem ShownCall.isLegible_pieces {call : ShownCall}
    (htypes : ∀ type ∈ call.typeArguments, type.Clear)
    (harguments : ∀ a ∈ call.arguments, a.IsLegible) :
    ∀ piece ∈ call.pieces, piece.IsLegible := by
  rcases call.pieces_cases with ⟨types, a, init, last, rfl, hlast, hp⟩ |
    ⟨types, last, rfl, hlast, hp⟩ | ⟨-, hp⟩
  · obtain ⟨hgroup, hbehind⟩ := List.forall_mem_append.mp harguments
    rw [hp]
    exact List.forall_mem_cons.mpr ⟨⟨htypes, hgroup⟩, List.forall_mem_singleton.mpr
      ⟨List.forall_mem_nil _, hlast, List.forall_mem_singleton.mp hbehind⟩⟩
  · rw [hp]
    exact List.forall_mem_singleton.mpr
      ⟨htypes, hlast, List.forall_mem_singleton.mp harguments⟩
  · rw [hp]
    exact List.forall_mem_singleton.mpr ⟨htypes, harguments⟩

namespace CallChain

/-- The pieces of a whole chain. -/
def pieces (chain : CallChain) : List ChainPiece :=
  chain.shownCalls.flatMap ShownCall.pieces

theorem isLegible_pieces (chain : CallChain) : ∀ piece ∈ chain.pieces, piece.IsLegible := by
  intro piece hpiece
  obtain ⟨shown, hshown, hpiece⟩ := List.mem_flatMap.mp hpiece
  obtain ⟨call, hcall, rfl⟩ := List.mem_map.mp hshown
  have hlegible := chain.isLegible call hcall
  refine ShownCall.isLegible_pieces ?_ ?_ piece hpiece
  · exact clear_arguments (TypeArgument.clear_normalEach hlegible.types)
  · intro a ha
    obtain ⟨argument, hargument, rfl⟩ := List.mem_map.mp ha
    exact (hlegible.arguments argument hargument).shown

theorem toList_kotlin (chain : CallChain) :
    chain.expression.kotlin.toList = chain.callee.toList ++ piecesText chain.pieces := by
  have hpriority : (Expression.identifier chain.callee).priority ≤ Priority.suffixed := by
    rw [Expression.priority]
    decide
  exact toList_called (.identifier chain.callee) chain.calls hpriority

/-- Two call chains have the same text exactly if they call the same name and, once every lone
lambda is merged into a call in front of it that has arguments and no lambda behind them, the same
arguments and type arguments stand in the same calls. Lambdas count as the same if their own texts
are, and type arguments if they are the same normal types. -/
theorem kotlin_eq_iff_merged (chain other : CallChain) :
    chain.expression.kotlin = other.expression.kotlin ↔
      chain.callee = other.callee ∧
        mergeCalls chain.shownCalls = mergeCalls other.shownCalls := by
  rw [← String.toList_inj, toList_kotlin, toList_kotlin]
  constructor
  · intro heq
    obtain ⟨hcallee, hpieces⟩ := IsWord.append_inj chain.isWord_callee other.isWord_callee
      (offWord_piecesText _) (offWord_piecesText _) heq
    have hpieces := piecesText_inj chain.isLegible_pieces other.isLegible_pieces hpieces
    refine ⟨String.toList_inj.mp hcallee, ?_⟩
    rw [← callsOf_flatMap, ← callsOf_flatMap]
    exact congrArg callsOf hpieces
  · rintro ⟨hcallee, hcalls⟩
    have hpieces : chain.pieces = other.pieces := by
      rw [pieces, ← flatMap_mergeCalls, hcalls, flatMap_mergeCalls, pieces]
    rw [hcallee, hpieces]

/-- `(x) => x` -/
def identityLambda : ChainArgument :=
  .lambda [⟨[], none, some "x"⟩] (.expression (.identifier "x"))

theorem isLegible_identityLambda : identityLambda.IsLegible := by
  apply ChainArgument.isLegible_lambda
  repeat' first
    | exact List.forall_mem_nil _
    | refine List.forall_mem_cons.mpr ⟨?_, ?_⟩
    | refine .intro (by decide +kernel) ?_

theorem isWord_letter {x : Char} (h : isWordChar x) : IsWord [x] :=
  ⟨List.cons_ne_nil x [], by simpa using h⟩

theorem isLegible_a : (ChainArgument.name "a").IsLegible :=
  isWord_letter (by decide)

theorem isLegible_call {types : List TypeArgument} {arguments : List ChainArgument}
    (htypes : ∀ name ∈ TypeArgument.wordsEach types, IsDotted name)
    (harguments : ∀ argument ∈ arguments, argument ∈ [.name "a", identityLambda]) :
    (ChainCall.mk types arguments).IsLegible where
  types := htypes
  arguments := fun argument hmem => List.forall_mem_cons.mpr
    ⟨isLegible_a, List.forall_mem_singleton.mpr isLegible_identityLambda⟩ argument
    (harguments argument hmem)

/-- `f(a)((x) => x)` -/
def calledTwice : CallChain where
  callee := "f"
  calls := [⟨[], [.name "a"]⟩, ⟨[], [identityLambda]⟩]
  isWord_callee := isWord_letter (by decide)
  isLegible := List.forall_mem_cons.mpr ⟨isLegible_call (by decide) (by simp),
    List.forall_mem_singleton.mpr (isLegible_call (by decide) (by simp))⟩

/-- `f(a, (x) => x)` -/
def calledOnce : CallChain where
  callee := "f"
  calls := [⟨[], [.name "a", identityLambda]⟩]
  isWord_callee := isWord_letter (by decide)
  isLegible := List.forall_mem_singleton.mpr (isLegible_call (by decide) (by simp))

/-- `f(a)<int>((x) => x)` -/
def calledWithType : CallChain where
  callee := "f"
  calls := [⟨[], [.name "a"]⟩,
    ⟨[.concrete none ⟨.primitive ⟨.int, false⟩, 0, false⟩], [identityLambda]⟩]
  isWord_callee := isWord_letter (by decide)
  isLegible := List.forall_mem_cons.mpr ⟨isLegible_call (by decide) (by simp),
    List.forall_mem_singleton.mpr (isLegible_call (by decide) (by simp))⟩

theorem calledTwice_printed_as_calledOnce :
    calledTwice.expression.kotlin = "f(a) \x7b x -> x \x7d" ∧
      calledTwice.expression.kotlin = calledOnce.expression.kotlin ∧
      calledTwice.expression ≠ calledOnce.expression ∧
      calledWithType.expression.kotlin ≠ calledOnce.expression.kotlin := by
  refine ⟨rfl, (kotlin_eq_iff_merged calledTwice calledOnce).mpr ⟨rfl, rfl⟩, ?_, ?_⟩
  · intro h
    injection h with hoperand
    cases hoperand
  · -- The type argument keeps the calls apart, so one chain shows two calls and the other one.
    intro h
    have hcalls := ((kotlin_eq_iff_merged calledWithType calledOnce).mp h).2
    exact absurd (congrArg List.length hcalls) (by decide)

end CallChain

end QuovaKotlin.Ast

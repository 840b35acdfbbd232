import QuovaKotlin.Kotlin.Types
import QuovaKotlin.Proofs.Lexemes
import QuovaKotlin.Proofs.Words

/-!
# Texts of types

The text of a type says which type it is, up to the choice between a primitive and the named type
that is printed like it, and between dimensions and nested `Array<...>` types. Normal types make
that choice once and for all. Two normal types with one text are equal: where a type ends no name
goes on, a name is never followed by a blank, and what is put in parentheses is a function type that
can be null, which no parameter list is.
-/

set_option autoImplicit false

namespace QuovaKotlin.Ast

open Text
open Lexical (isWordChar)

/-- `Array<...>` around a type, `n` times. Only the outermost type can be null. -/
def TypeRef.inArrays (core : TypeCore) : Nat → Bool → TypeRef
  | 0, nullable => ⟨core, 0, nullable⟩
  | n + 1, nullable => ⟨.user ⟨"Array", [.concrete none (inArrays core n false)]⟩, 0, nullable⟩

mutual

/-- The type with named types in place of primitives and dimensions. -/
def TypeRef.normal : TypeRef → TypeRef
  | ⟨core, dimensions, nullable⟩ => .inArrays core.normal dimensions nullable

def TypeCore.normal : TypeCore → TypeCore
  | .primitive type => .user ⟨type.kotlin, []⟩
  | .user type => .user type.normal
  | .function suspend result parameters =>
    .function suspend result.normal (TypeRef.normalEach parameters)

def UserType.normal : UserType → UserType
  | ⟨name, arguments⟩ => ⟨name, TypeArgument.normalEach arguments⟩

def TypeArgument.normal : TypeArgument → TypeArgument
  | .wildcard => .wildcard
  | .concrete variance type => .concrete variance type.normal

def TypeRef.normalEach : List TypeRef → List TypeRef
  | [] => []
  | type :: types => type.normal :: TypeRef.normalEach types

def TypeArgument.normalEach : List TypeArgument → List TypeArgument
  | [] => []
  | argument :: arguments => argument.normal :: TypeArgument.normalEach arguments

end

theorem copies_succ_right (n : Nat) (s : String) : copies (n + 1) s = copies n s ++ s := by
  induction n with
  | zero => simp [copies]
  | succ n ih =>
    show s ++ copies (n + 1) s = s ++ copies n s ++ s
    rw [ih, String.append_assoc]

/-- Parentheses stand around a function type only if it can be null and has no dimensions. -/
theorem TypeRef.kotlin_mk {core : TypeCore} {n : Nat} {nullable : Bool}
    (h : (core.isFunction && nullable && n == 0) = false) :
    (TypeRef.mk core n nullable).kotlin =
      copies n "Array<" ++ core.kotlin ++ copies n ">" ++ onlyIf nullable "?" := by
  show copies n "Array<" ++ (if core.isFunction && nullable && n == 0 then _ else core.kotlin) ++
    copies n ">" ++ onlyIf nullable "?" = _
  rw [h]
  rfl

theorem TypeRef.kotlin_array (element : TypeRef) (nullable : Bool) :
    (TypeRef.mk (.user ⟨"Array", [.concrete none element]⟩) 0 nullable).kotlin =
      "Array<" ++ element.kotlin ++ ">" ++ onlyIf nullable "?" := by
  show "" ++ ("Array" ++ ("<" ++ element.kotlin ++ ">")) ++ "" ++ onlyIf nullable "?" = _
  rw [String.empty_append, String.append_empty, ← String.append_assoc, ← String.append_assoc]
  rfl

theorem TypeRef.kotlin_inArrays (core : TypeCore) (n : Nat) (nullable : Bool) :
    (inArrays core n nullable).kotlin = (TypeRef.mk core n nullable).kotlin := by
  induction n generalizing nullable with
  | zero => rfl
  | succ n ih =>
    rw [inArrays, kotlin_array, ih, kotlin_mk (by simp), kotlin_mk (by simp),
      copies_succ_right n ">", copies, onlyIf]
    simp only [Bool.false_eq_true, if_false, String.append_empty, String.append_assoc]

theorem TypeCore.isFunction_normal (core : TypeCore) :
    core.normal.isFunction = core.isFunction := by
  cases core <;> rfl

mutual

theorem TypeRef.kotlin_normal : ∀ type : TypeRef, type.normal.kotlin = type.kotlin
  | ⟨core, n, nullable⟩ => by
    show (TypeRef.inArrays core.normal n nullable).kotlin = _
    rw [TypeRef.kotlin_inArrays]
    show copies n "Array<" ++ (if core.normal.isFunction && nullable && n == 0 then
      "(" ++ core.normal.kotlin ++ ")" else core.normal.kotlin) ++ copies n ">" ++ _ = _
    rw [core.isFunction_normal, TypeCore.kotlin_normal core]
    rfl

theorem TypeCore.kotlin_normal : ∀ core : TypeCore, core.normal.kotlin = core.kotlin
  | .primitive type => String.append_empty
  | .user type => UserType.kotlin_normal type
  | .function suspend result parameters => by
    show onlyIf suspend "suspend " ++ "(" ++ commas (TypeRef.kotlinEach _) ++ ") -> " ++ _ =
      onlyIf suspend "suspend " ++ "(" ++ commas (TypeRef.kotlinEach _) ++ ") -> " ++ _
    rw [TypeRef.kotlin_normalEach parameters, TypeRef.kotlin_normal result]

theorem UserType.kotlin_normal : ∀ type : UserType, type.normal.kotlin = type.kotlin
  | ⟨name, arguments⟩ => by
    show name ++ angleList _ = name ++ angleList _
    rw [TypeArgument.kotlin_normalEach arguments]

theorem TypeArgument.kotlin_normal :
    ∀ argument : TypeArgument, argument.normal.kotlin = argument.kotlin
  | .wildcard => rfl
  | .concrete none type => TypeRef.kotlin_normal type
  | .concrete (some variance) type => by
    show variance.kotlin ++ " " ++ _ = variance.kotlin ++ " " ++ _
    rw [TypeRef.kotlin_normal type]

theorem TypeRef.kotlin_normalEach : ∀ types : List TypeRef,
    TypeRef.kotlinEach (TypeRef.normalEach types) = TypeRef.kotlinEach types
  | [] => rfl
  | type :: types => by
    show type.normal.kotlin :: TypeRef.kotlinEach (TypeRef.normalEach types) = _
    rw [TypeRef.kotlin_normal type, TypeRef.kotlin_normalEach types]
    rfl

theorem TypeArgument.kotlin_normalEach : ∀ arguments : List TypeArgument,
    TypeArgument.kotlinEach (TypeArgument.normalEach arguments) = TypeArgument.kotlinEach arguments
  | [] => rfl
  | argument :: arguments => by
    show argument.normal.kotlin :: TypeArgument.kotlinEach (TypeArgument.normalEach arguments) = _
    rw [TypeArgument.kotlin_normal argument, TypeArgument.kotlin_normalEach arguments]
    rfl

end

/-- The characters that can follow a type. -/
def isStop (c : Char) : Bool :=
  c == ',' || c == '>' || c == ')'

/-- A type can end here. -/
def Stops (rest : List Char) : Prop :=
  ∀ c ∈ rest.head?, isStop c

theorem stops_cons {c : Char} (hc : isStop c) (rest : List Char) : Stops (c :: rest) := by
  rintro x ⟨⟩
  exact hc

theorem not_stops_cons {c : Char} {rest : List Char} (hc : isStop c = false) :
    ¬ Stops (c :: rest) := by
  intro h
  rw [h c rfl] at hc
  cases hc

/-- Where a type can end, a text tells `x` from all others, and where it ends. -/
def Told {α : Type} (chars : α → List Char) (ok : α → Prop) (x : α) : Prop :=
  ∀ y r r', ok y → Stops r → Stops r' → chars x ++ r = chars y ++ r' → x = y ∧ r = r'

/-- The texts in order, with a comma and a blank between neighbours. -/
def row : List (List Char) → List Char
  | [] => []
  | [w] => w
  | w :: ws => w ++ (',' :: ' ' :: row ws)

theorem toList_commas_eq_row (texts : List String) :
    (commas texts).toList = row (texts.map String.toList) := by
  induction texts with
  | nil => rfl
  | cons s texts ih =>
    cases texts with
    | nil => rfl
    | cons s' texts =>
      show (s ++ ", " ++ commas (s' :: texts)).toList = s.toList ++ _
      rw [String.toList_append, String.toList_append, ih, List.append_assoc]
      rfl

/-- What follows the first text of a row. -/
def rowTail (ws : List (List Char)) (rest : List Char) : List Char :=
  match ws with
  | [] => rest
  | ws => ',' :: ' ' :: (row ws ++ rest)

theorem row_cons_append (w : List Char) (ws : List (List Char)) (rest : List Char) :
    row (w :: ws) ++ rest = w ++ rowTail ws rest := by
  cases ws with
  | nil => rfl
  | cons w' ws =>
    show (w ++ (',' :: ' ' :: row (w' :: ws))) ++ rest = _
    rw [List.append_assoc]
    rfl

section Rows

variable {α : Type} {chars : α → List Char} {ok : α → Prop} {close : Char}

/-- A closing character ends a row, since no text in the row starts with one. -/
theorem row_told (hclose : isStop close) (hcomma : close ≠ ',')
    (hstart : ∀ x, ok x → ∃ c w, chars x = c :: w ∧ isStop c = false) {xs ys : List α}
    (hxs : ∀ x ∈ xs, ok x) (htold : ∀ x ∈ xs, Told chars ok x) (hys : ∀ y ∈ ys, ok y)
    {r r' : List Char}
    (h : row (xs.map chars) ++ close :: r = row (ys.map chars) ++ close :: r') :
    xs = ys ∧ r = r' := by
  have hempty {y : α} {ys : List α} {r r' : List Char} (hy : ok y) :
      close :: r ≠ row ((y :: ys).map chars) ++ close :: r' := by
    obtain ⟨c, w, hchars, hc⟩ := hstart y hy
    rw [List.map_cons, row_cons_append, hchars]
    intro heq
    rw [(List.cons.inj heq).1, hc] at hclose
    cases hclose
  have htail (zs : List α) (r : List Char) : Stops (rowTail (zs.map chars) (close :: r)) := by
    cases zs with
    | nil => exact stops_cons hclose r
    | cons z zs => exact stops_cons rfl _
  induction xs generalizing ys with
  | nil =>
    cases ys with
    | nil => exact ⟨rfl, (List.cons.inj h).2⟩
    | cons y ys => exact absurd h (hempty (hys y List.mem_cons_self))
  | cons x xs ih =>
    cases ys with
    | nil => exact absurd h.symm (hempty (hxs x List.mem_cons_self))
    | cons y ys =>
      obtain ⟨-, hxs⟩ := List.forall_mem_cons.mp hxs
      obtain ⟨hx, htold⟩ := List.forall_mem_cons.mp htold
      obtain ⟨hy, hyrest⟩ := List.forall_mem_cons.mp hys
      rw [List.map_cons, List.map_cons, row_cons_append, row_cons_append] at h
      obtain ⟨heq, hrest⟩ := hx y _ _ hy (htail xs r) (htail ys r') h
      subst heq
      -- Both rows are closed here, or both go on with a comma.
      cases xs with
      | nil =>
        cases ys with
        | nil => exact ⟨rfl, (List.cons.inj hrest).2⟩
        | cons => exact absurd (List.cons.inj hrest).1 hcomma
      | cons x' xs =>
        cases ys with
        | nil => exact absurd (List.cons.inj hrest).1.symm hcomma
        | cons y' ys =>
          obtain ⟨heq, hr⟩ := ih hxs htold hyrest (List.cons.inj (List.cons.inj hrest).2).2
          exact ⟨congrArg _ heq, hr⟩

end Rows

theorem TypeRef.kotlinEach_eq_map (types : List TypeRef) :
    TypeRef.kotlinEach types = types.map TypeRef.kotlin :=
  Text.each_eq_map rfl (fun _ _ => rfl) types

theorem TypeArgument.kotlinEach_eq_map (arguments : List TypeArgument) :
    TypeArgument.kotlinEach arguments = arguments.map TypeArgument.kotlin :=
  Text.each_eq_map rfl (fun _ _ => rfl) arguments

def TypeRef.chars (type : TypeRef) : List Char :=
  type.kotlin.toList

def TypeArgument.chars (argument : TypeArgument) : List Char :=
  argument.kotlin.toList

def angleChars (ws : List (List Char)) : List Char :=
  match ws with
  | [] => []
  | ws => '<' :: (row ws ++ ['>'])

theorem angleChars_append (w : List Char) (ws : List (List Char)) (rest : List Char) :
    angleChars (w :: ws) ++ rest = '<' :: (row (w :: ws) ++ '>' :: rest) := by
  simp [angleChars]

def nullMark (nullable : Bool) : List Char :=
  if nullable then ['?'] else []

theorem toList_angleList (arguments : List TypeArgument) :
    (angleList (TypeArgument.kotlinEach arguments)).toList =
      angleChars (arguments.map TypeArgument.chars) := by
  cases arguments with
  | nil => rfl
  | cons argument arguments =>
    show ("<" ++ commas (TypeArgument.kotlinEach (argument :: arguments)) ++ ">").toList = _
    rw [String.toList_append, String.toList_append, toList_commas_eq_row,
      TypeArgument.kotlinEach_eq_map, List.map_map]
    rfl

theorem TypeRef.chars_user (name : String) (arguments : List TypeArgument) (nullable : Bool) :
    (TypeRef.mk (.user ⟨name, arguments⟩) 0 nullable).chars =
      name.toList ++ (angleChars (arguments.map TypeArgument.chars) ++ nullMark nullable) := by
  have hmark : (onlyIf nullable "?").toList = nullMark nullable := by cases nullable <;> rfl
  show ("" ++ (name ++ angleList _) ++ "" ++ onlyIf nullable "?").toList = _
  rw [String.empty_append, String.append_empty, String.toList_append, String.toList_append,
    toList_angleList, hmark, List.append_assoc]

theorem TypeRef.chars_function (suspend : Bool) (result : TypeRef) (parameters : List TypeRef) :
    (TypeRef.mk (.function suspend result parameters) 0 false).chars =
      (onlyIf suspend "suspend ").toList ++ ('(' :: (row (parameters.map TypeRef.chars) ++
        (')' :: (" -> ".toList ++ result.chars)))) := by
  show ("" ++ (onlyIf suspend "suspend " ++ "(" ++ commas (TypeRef.kotlinEach parameters) ++
    ") -> " ++ result.kotlin) ++ "" ++ "").toList = _
  rw [TypeRef.kotlinEach_eq_map]
  simp only [String.empty_append, String.append_empty, String.toList_append, toList_commas_eq_row,
    List.map_map, List.append_assoc]
  rfl

theorem TypeRef.chars_nullable (suspend : Bool) (result : TypeRef) (parameters : List TypeRef) :
    (TypeRef.mk (.function suspend result parameters) 0 true).chars =
      '(' :: ((TypeRef.mk (.function suspend result parameters) 0 false).chars ++ [')', '?']) := by
  have hplain : (TypeRef.mk (.function suspend result parameters) 0 false).kotlin =
      "" ++ (TypeCore.function suspend result parameters).kotlin ++ "" ++ "" := rfl
  show ("" ++ ("(" ++ (TypeCore.function suspend result parameters).kotlin ++ ")") ++ "" ++
    "?").toList = _
  rw [chars, hplain]
  simp only [String.empty_append, String.append_empty, String.toList_append, List.append_assoc]
  rfl

def isNameChar (c : Char) : Bool :=
  isWordChar c || c == '.'

/-- Identifiers with points between them; where the points stand does not matter. -/
def IsDotted (name : String) : Prop :=
  name ≠ "" ∧ name.toList.all isNameChar

instance (name : String) : Decidable (IsDotted name) :=
  inferInstanceAs (Decidable (_ ∧ _))

/-- A normal type with names that can be written. -/
inductive TypeRef.Clear : TypeRef → Prop
  | user {name : String} {arguments : List TypeArgument} (nullable : Bool) : IsDotted name →
      (∀ variance type, TypeArgument.concrete variance type ∈ arguments → Clear type) →
      Clear ⟨.user ⟨name, arguments⟩, 0, nullable⟩
  | function {result : TypeRef} {parameters : List TypeRef} (suspend nullable : Bool) :
      Clear result → (∀ type ∈ parameters, Clear type) →
      Clear ⟨.function suspend result parameters, 0, nullable⟩

def TypeArgument.Clear (argument : TypeArgument) : Prop :=
  ∀ variance type, argument = .concrete variance type → type.Clear

/-- No name goes on here. -/
def OffName (rest : List Char) : Prop :=
  ∀ c ∈ rest.head?, ¬ isNameChar c

theorem offName_blank (v : List Char) : OffName (' ' :: v) := by
  rintro c ⟨⟩
  decide

/-- A text has one longest name at its start. -/
theorem name_inj {u u' v v' : List Char} (hu : u.all isNameChar) (hu' : u'.all isNameChar)
    (hv : OffName v) (hv' : OffName v') (h : u ++ v = u' ++ v') : u = u' ∧ v = v' := by
  have htake := Lexical.takeWhile_append_of_head (List.all_eq_true.mp hu) hv
  have htake' := Lexical.takeWhile_append_of_head (List.all_eq_true.mp hu') hv'
  have heq : u = u' := by rw [← htake, h, htake']
  subst heq
  exact ⟨rfl, List.append_cancel_left h⟩

/-- What follows a name in a type is neither a part of it nor a blank. -/
theorem userTail_head {ws : List (List Char)} {nullable : Bool} {r : List Char} (hr : Stops r) :
    ∀ c ∈ (angleChars ws ++ (nullMark nullable ++ r)).head?, c = '<' ∨ c = '?' ∨ isStop c := by
  cases ws with
  | cons w ws =>
    rintro c ⟨⟩
    exact .inl rfl
  | nil =>
    cases nullable with
    | true =>
      rintro c ⟨⟩
      exact .inr (.inl rfl)
    | false => exact fun c hc => .inr (.inr (hr c hc))

theorem offName_of_head {rest : List Char}
    (h : ∀ c ∈ rest.head?, c = '<' ∨ c = '?' ∨ isStop c) : OffName rest := by
  intro c hc
  rcases h c hc with rfl | rfl | hstop
  · decide
  · decide
  · simp only [isStop, Bool.or_eq_true, beq_iff_eq] at hstop
    rcases hstop with (rfl | rfl) | rfl <;> decide

theorem nullMark_inj {q q' : Bool} {r r' : List Char} (hr : Stops r) (hr' : Stops r')
    (h : nullMark q ++ r = nullMark q' ++ r') : q = q' ∧ r = r' := by
  cases q with
  | false =>
    cases q' with
    | false => exact ⟨rfl, h⟩
    | true =>
      have hmark : r = '?' :: r' := h
      exact absurd (hmark ▸ hr) (not_stops_cons rfl)
  | true =>
    cases q' with
    | false =>
      have hmark : '?' :: r = r' := h
      exact absurd (hmark ▸ hr') (not_stops_cons rfl)
    | true => exact ⟨rfl, (List.cons.inj h).2⟩

theorem chars_function_head (suspend nullable : Bool) (result : TypeRef)
    (parameters : List TypeRef) :
    ∃ w, (TypeRef.mk (.function suspend result parameters) 0 nullable).chars = '(' :: w ∨
      (TypeRef.mk (.function suspend result parameters) 0 nullable).chars =
        "suspend ".toList ++ w := by
  cases nullable with
  | true => exact ⟨_, .inl (TypeRef.chars_nullable suspend result parameters)⟩
  | false =>
    rw [TypeRef.chars_function]
    cases suspend with
    | true => exact ⟨_, .inr rfl⟩
    | false => exact ⟨_, .inl rfl⟩

theorem IsDotted.exists_cons {name : String} (h : IsDotted name) :
    ∃ c w, name.toList = c :: w ∧ isNameChar c := by
  obtain ⟨c, w, hname⟩ := List.exists_cons_of_ne_nil (mt String.toList_eq_nil_iff.mp h.1)
  refine ⟨c, w, hname, List.all_eq_true.mp h.2 c ?_⟩
  rw [hname]
  exact List.mem_cons_self

theorem user_ne_blank {name : String} {arguments : List TypeArgument} {nullable : Bool}
    {u v r : List Char} (hname : IsDotted name) (hr : Stops r) (hu : u.all isNameChar) :
    (TypeRef.mk (.user ⟨name, arguments⟩) 0 nullable).chars ++ r ≠ u ++ ' ' :: v := by
  intro h
  rw [TypeRef.chars_user, List.append_assoc, List.append_assoc] at h
  have hhead : ∀ c ∈ (angleChars (arguments.map TypeArgument.chars) ++
      (nullMark nullable ++ r)).head?, c = '<' ∨ c = '?' ∨ isStop c := userTail_head hr
  obtain ⟨-, htail⟩ := name_inj hname.2 hu (offName_of_head hhead) (offName_blank v) h
  rw [htail] at hhead
  rcases hhead ' ' rfl with h | h | h <;> exact absurd h (by decide)

theorem user_ne_function {name : String} {arguments : List TypeArgument} {parameters : List TypeRef}
    {result : TypeRef} {suspend nullable nullable' : Bool} {r r' : List Char}
    (hname : IsDotted name) (hr : Stops r) :
    (TypeRef.mk (.user ⟨name, arguments⟩) 0 nullable).chars ++ r ≠
      (TypeRef.mk (.function suspend result parameters) 0 nullable').chars ++ r' := by
  obtain ⟨w, hw | hw⟩ := chars_function_head suspend nullable' result parameters
  · obtain ⟨c, w', hchars, hc⟩ := hname.exists_cons
    rw [hw, TypeRef.chars_user, hchars]
    intro h
    rw [(List.cons.inj h).1] at hc
    exact absurd hc (by decide)
  · rw [hw, List.append_assoc]
    exact user_ne_blank (u := "suspend".toList) hname hr (by decide)

theorem TypeRef.Clear.start {type : TypeRef} (h : type.Clear) :
    ∃ c w, type.chars = c :: w ∧ (isNameChar c ∨ c = '(') := by
  cases h with
  | user nullable hname _ =>
    obtain ⟨c, w, hchars, hc⟩ := hname.exists_cons
    rw [chars_user, hchars]
    exact ⟨c, _, rfl, .inl hc⟩
  | @function result parameters suspend nullable _ _ =>
    obtain ⟨w, hw | hw⟩ := chars_function_head suspend nullable result parameters
    · exact ⟨'(', w, hw, .inr rfl⟩
    · exact ⟨'s', _, hw, .inl (by decide)⟩

theorem isStop_of_start {c : Char} (h : isNameChar c ∨ c = '(') : isStop c = false := by
  rw [Bool.eq_false_iff]
  intro hstop
  simp only [isStop, Bool.or_eq_true, beq_iff_eq] at hstop
  rcases hstop with (rfl | rfl) | rfl <;> exact absurd h (by decide)

theorem TypeRef.Clear.start_not_stop (type : TypeRef) (h : type.Clear) :
    ∃ c w, type.chars = c :: w ∧ isStop c = false := by
  obtain ⟨c, w, hchars, hc⟩ := h.start
  exact ⟨c, w, hchars, isStop_of_start hc⟩

theorem Variance.kotlin_inj {v v' : Variance} (h : v.kotlin = v'.kotlin) : v = v' := by
  cases v <;> cases v' <;> first | rfl | exact absurd h (by decide)

theorem chars_concrete (variance : Variance) (type : TypeRef) :
    (TypeArgument.concrete (some variance) type).chars =
      variance.kotlin.toList ++ ' ' :: type.chars := by
  show (variance.kotlin ++ " " ++ type.kotlin).toList = _
  rw [String.toList_append, String.toList_append, List.append_assoc]
  rfl

theorem Variance.all_isNameChar (variance : Variance) :
    variance.kotlin.toList.all isNameChar := by
  cases variance <;> decide

theorem Variance.head (variance : Variance) :
    ∃ c w, variance.kotlin.toList = c :: w ∧ (c = 'i' ∨ c = 'o') := by
  cases variance with
  | contravariant => exact ⟨'i', _, rfl, .inl rfl⟩
  | covariant => exact ⟨'o', _, rfl, .inr rfl⟩

/-- No type starts with a name and a blank, `suspend` apart. -/
theorem TypeRef.Clear.ne_variance {type : TypeRef} (h : type.Clear) {r : List Char} (hr : Stops r)
    (variance : Variance) (v : List Char) :
    type.chars ++ r ≠ variance.kotlin.toList ++ ' ' :: v := by
  cases h with
  | user nullable hname _ => exact user_ne_blank hname hr variance.all_isNameChar
  | @function result parameters suspend nullable _ _ =>
    obtain ⟨c, u, hu, hc⟩ := variance.head
    have hstart : ∃ c' w, (TypeRef.mk (.function suspend result parameters) 0 nullable).chars =
        c' :: w ∧ (c' = '(' ∨ c' = 's') := by
      obtain ⟨w, hw | hw⟩ := chars_function_head suspend nullable result parameters
      · exact ⟨'(', w, hw, .inl rfl⟩
      · exact ⟨'s', _, hw, .inr rfl⟩
    obtain ⟨c', w, hw, hc'⟩ := hstart
    rw [hw, hu]
    intro heq
    obtain rfl : c' = c := (List.cons.inj heq).1
    rcases hc with rfl | rfl <;> exact absurd hc' (by decide)

theorem start_concrete (variance : Option Variance) {type : TypeRef} (h : type.Clear) :
    ∃ c w, (TypeArgument.concrete variance type).chars = c :: w ∧ (isNameChar c ∨ c = '(') := by
  cases variance with
  | none => exact h.start
  | some variance =>
    obtain ⟨c, w, hchars, hc⟩ := variance.head
    rw [chars_concrete, hchars]
    refine ⟨c, _, rfl, .inl ?_⟩
    rcases hc with rfl | rfl <;> decide

theorem TypeArgument.Clear.start_not_stop (argument : TypeArgument) (h : argument.Clear) :
    ∃ c w, argument.chars = c :: w ∧ isStop c = false := by
  cases argument with
  | wildcard => exact ⟨'*', [], rfl, rfl⟩
  | concrete variance type =>
    obtain ⟨c, w, hchars, hc⟩ := start_concrete variance (h variance type rfl)
    exact ⟨c, w, hchars, isStop_of_start hc⟩

theorem wildcard_ne_concrete {variance : Option Variance} {type : TypeRef} (h : type.Clear)
    {r r' : List Char} :
    TypeArgument.wildcard.chars ++ r ≠ (TypeArgument.concrete variance type).chars ++ r' := by
  obtain ⟨c, w, hchars, hc⟩ := start_concrete variance h
  intro heq
  rw [hchars] at heq
  have hstar : '*' = c := (List.cons.inj heq).1
  rw [← hstar] at hc
  exact absurd hc (by decide)

theorem TypeArgument.told {argument : TypeArgument} (hclear : argument.Clear)
    (htold : ∀ variance type, argument = .concrete variance type →
      Told TypeRef.chars TypeRef.Clear type) :
    Told TypeArgument.chars TypeArgument.Clear argument := by
  intro other r r' hother hr hr' h
  cases argument with
  | wildcard =>
    cases other with
    | wildcard => exact ⟨rfl, (List.cons.inj h).2⟩
    | concrete => exact absurd h (wildcard_ne_concrete (hother _ _ rfl))
  | concrete variance type =>
    have htype := hclear _ _ rfl
    cases other with
    | wildcard => exact absurd h.symm (wildcard_ne_concrete htype)
    | concrete variance' type' =>
      have htype' := hother _ _ rfl
      cases variance with
      | none =>
        cases variance' with
        | none =>
          obtain ⟨rfl, hr⟩ := htold _ _ rfl type' r r' htype' hr hr' h
          exact ⟨rfl, hr⟩
        | some variance' =>
          rw [chars_concrete, List.append_assoc] at h
          exact absurd h (htype.ne_variance hr variance' _)
      | some variance =>
        cases variance' with
        | none =>
          rw [chars_concrete, List.append_assoc] at h
          exact absurd h.symm (htype'.ne_variance hr' variance _)
        | some variance' =>
          rw [chars_concrete, chars_concrete, List.append_assoc, List.append_assoc] at h
          obtain ⟨hname, hrest⟩ := name_inj variance.all_isNameChar variance'.all_isNameChar
            (offName_blank _) (offName_blank _) h
          obtain rfl := Variance.kotlin_inj (String.toList_inj.mp hname)
          obtain ⟨rfl, hr⟩ := htold _ _ rfl type' r r' htype' hr hr' (List.cons.inj hrest).2
          exact ⟨rfl, hr⟩

/-- Type arguments end where no other bracket opens. -/
theorem angleChars_inj {arguments arguments' : List TypeArgument} {r r' : List Char}
    (hclear : ∀ argument ∈ arguments, argument.Clear)
    (htold : ∀ argument ∈ arguments, Told TypeArgument.chars TypeArgument.Clear argument)
    (hclear' : ∀ argument ∈ arguments', argument.Clear) (hr : ∀ v, r ≠ '<' :: v)
    (hr' : ∀ v, r' ≠ '<' :: v)
    (h : angleChars (arguments.map TypeArgument.chars) ++ r =
      angleChars (arguments'.map TypeArgument.chars) ++ r') :
    arguments = arguments' ∧ r = r' := by
  cases arguments with
  | nil =>
    cases arguments' with
    | nil => exact ⟨rfl, h⟩
    | cons => exact absurd h (hr _)
  | cons argument arguments =>
    cases arguments' with
    | nil => exact absurd h.symm (hr' _)
    | cons argument' arguments' =>
      rw [List.map_cons, List.map_cons, angleChars_append, angleChars_append] at h
      exact row_told rfl (by decide) TypeArgument.Clear.start_not_stop hclear htold hclear'
        (List.cons.inj h).2

/-- The type arguments and the mark behind a name. -/
theorem userTail_inj {arguments arguments' : List TypeArgument} {q q' : Bool} {r r' : List Char}
    (hclear : ∀ argument ∈ arguments, argument.Clear)
    (htold : ∀ argument ∈ arguments, Told TypeArgument.chars TypeArgument.Clear argument)
    (hclear' : ∀ argument ∈ arguments', argument.Clear) (hr : Stops r) (hr' : Stops r')
    (h : angleChars (arguments.map TypeArgument.chars) ++ (nullMark q ++ r) =
      angleChars (arguments'.map TypeArgument.chars) ++ (nullMark q' ++ r')) :
    arguments = arguments' ∧ q = q' ∧ r = r' := by
  have hangle {q : Bool} {r : List Char} (hr : Stops r) (v : List Char) :
      nullMark q ++ r ≠ '<' :: v := by
    intro h
    cases q with
    | true => cases h
    | false =>
      have hopen : r = '<' :: v := h
      exact absurd (hopen ▸ hr) (not_stops_cons rfl)
  obtain ⟨harguments, hrest⟩ := angleChars_inj hclear htold hclear' (hangle hr) (hangle hr') h
  exact ⟨harguments, nullMark_inj hr hr' hrest⟩

theorem clear_arguments {arguments : List TypeArgument}
    (h : ∀ variance type, TypeArgument.concrete variance type ∈ arguments → type.Clear) :
    ∀ argument ∈ arguments, argument.Clear := by
  rintro argument hmem variance type rfl
  exact h variance type hmem

theorem told_user {name : String} {arguments : List TypeArgument} (nullable : Bool)
    (hname : IsDotted name) (hclear : ∀ argument ∈ arguments, argument.Clear)
    (htold : ∀ argument ∈ arguments, Told TypeArgument.chars TypeArgument.Clear argument) :
    Told TypeRef.chars TypeRef.Clear ⟨.user ⟨name, arguments⟩, 0, nullable⟩ := by
  intro other r r' hother hr hr' h
  cases hother with
  | function => exact absurd h (user_ne_function hname hr)
  | user nullable' hname' hclear' =>
    rw [TypeRef.chars_user, TypeRef.chars_user, List.append_assoc, List.append_assoc,
      List.append_assoc, List.append_assoc] at h
    obtain ⟨heq, htail⟩ := name_inj hname.2 hname'.2 (offName_of_head (userTail_head hr))
      (offName_of_head (userTail_head hr')) h
    obtain rfl := String.toList_inj.mp heq
    obtain ⟨rfl, rfl, hrest⟩ :=
      userTail_inj hclear htold (clear_arguments hclear') hr hr' htail
    exact ⟨rfl, hrest⟩

/-- A parameter list is no function type in parentheses: behind the first parameter there is a
comma or an arrow. -/
theorem row_ne_nullable {inner : TypeRef} {parameters : List TypeRef} {v v' : List Char}
    (hinner : inner.Clear)
    (hends : ∀ type ∈ parameters, ∀ r r', Stops r → Stops r' →
      type.chars ++ r = inner.chars ++ r' → r = r') :
    row (parameters.map TypeRef.chars) ++ (')' :: ' ' :: v) ≠
      inner.chars ++ (')' :: '?' :: v') := by
  intro h
  cases parameters with
  | nil =>
    obtain ⟨c, w, hchars, hc⟩ := hinner.start_not_stop
    rw [hchars] at h
    have hclose : ')' = c := (List.cons.inj h).1
    rw [← hclose] at hc
    exact absurd hc (by decide)
  | cons type types =>
    rw [List.map_cons, row_cons_append] at h
    have htail : Stops (rowTail (types.map TypeRef.chars) (')' :: ' ' :: v)) := by
      cases types <;> exact stops_cons rfl _
    have hrest := hends type List.mem_cons_self _ _ htail (stops_cons rfl _) h
    cases types with
    | nil => exact absurd (List.cons.inj (List.cons.inj hrest).2).1 (by decide)
    | cons => exact absurd (List.cons.inj hrest).1 (by decide)

theorem function_append (suspend : Bool) (result : TypeRef) (parameters : List TypeRef)
    (r : List Char) :
    (TypeRef.mk (.function suspend result parameters) 0 false).chars ++ r =
      (onlyIf suspend "suspend ").toList ++ ('(' :: (row (parameters.map TypeRef.chars) ++
        (')' :: ' ' :: '-' :: '>' :: ' ' :: (result.chars ++ r)))) := by
  rw [TypeRef.chars_function]
  simp

theorem nullable_append (suspend : Bool) (result : TypeRef) (parameters : List TypeRef)
    (r : List Char) :
    (TypeRef.mk (.function suspend result parameters) 0 true).chars ++ r =
      '(' :: ((TypeRef.mk (.function suspend result parameters) 0 false).chars ++
        (')' :: '?' :: r)) := by
  rw [TypeRef.chars_nullable]
  simp

section Function

variable {result result' : TypeRef} {parameters parameters' : List TypeRef}

/-- A function type that cannot be null is not one that can be null. -/
theorem function_ne_nullable {suspend suspend' : Bool} {r r' : List Char}
    (hinner : (TypeRef.mk (.function suspend' result' parameters') 0 false).Clear)
    (hends : ∀ type ∈ parameters, ∀ r r', Stops r → Stops r' → type.chars ++ r =
      (TypeRef.mk (.function suspend' result' parameters') 0 false).chars ++ r' → r = r') :
    (TypeRef.mk (.function suspend result parameters) 0 false).chars ++ r ≠
      (TypeRef.mk (.function suspend' result' parameters') 0 true).chars ++ r' := by
  rw [function_append, nullable_append]
  intro h
  cases suspend with
  | true => exact absurd (List.cons.inj h).1 (by decide)
  | false => exact absurd (List.cons.inj h).2 (row_ne_nullable hinner hends)

theorem told_function (suspend : Bool) (hresult : Told TypeRef.chars TypeRef.Clear result)
    (hclear : ∀ type ∈ parameters, type.Clear)
    (hparameters : ∀ type ∈ parameters, Told TypeRef.chars TypeRef.Clear type) :
    Told TypeRef.chars TypeRef.Clear ⟨.function suspend result parameters, 0, false⟩ := by
  intro other r r' hother hr hr' h
  cases hother with
  | user nullable' hname' _ => exact absurd h.symm (user_ne_function hname' hr')
  | @function result' parameters' suspend' nullable' hresult' hclear' =>
    cases nullable' with
    | true =>
      have hinner := TypeRef.Clear.function suspend' false hresult' hclear'
      refine absurd h (function_ne_nullable hinner fun type hmem r r' hr hr' h => ?_)
      exact (hparameters type hmem _ r r' hinner hr hr' h).2
    | false =>
      rw [function_append, function_append] at h
      have hbody : suspend = suspend' ∧ row (parameters.map TypeRef.chars) ++
          (')' :: ' ' :: '-' :: '>' :: ' ' :: (result.chars ++ r)) =
          row (parameters'.map TypeRef.chars) ++
          (')' :: ' ' :: '-' :: '>' :: ' ' :: (result'.chars ++ r')) := by
        cases suspend with
        | true =>
          cases suspend' with
          | true => exact ⟨rfl, (List.cons.inj (List.append_cancel_left h)).2⟩
          | false => exact absurd (List.cons.inj h).1 (by decide)
        | false =>
          cases suspend' with
          | true => exact absurd (List.cons.inj h).1 (by decide)
          | false => exact ⟨rfl, (List.cons.inj h).2⟩
      obtain ⟨rfl, hrow⟩ := hbody
      obtain ⟨rfl, hrest⟩ := row_told rfl (by decide) TypeRef.Clear.start_not_stop hclear
        hparameters hclear' hrow
      have harrow : " -> ".toList ++ (result.chars ++ r) = " -> ".toList ++ (result'.chars ++ r') :=
        hrest
      obtain ⟨rfl, hr⟩ := hresult result' r r' hresult' hr hr' (List.append_cancel_left harrow)
      exact ⟨rfl, hr⟩

theorem told_nullable (suspend : Bool) (hinner :
      (TypeRef.mk (.function suspend result parameters) 0 false).Clear)
    (htold : Told TypeRef.chars TypeRef.Clear ⟨.function suspend result parameters, 0, false⟩) :
    Told TypeRef.chars TypeRef.Clear ⟨.function suspend result parameters, 0, true⟩ := by
  intro other r r' hother hr hr' h
  cases hother with
  | user nullable' hname' _ => exact absurd h.symm (user_ne_function hname' hr')
  | @function result' parameters' suspend' nullable' hresult' hclear' =>
    cases nullable' with
    | false =>
      refine absurd h.symm (function_ne_nullable hinner fun type hmem r r' hr hr' h => ?_)
      exact (htold type r' r (hclear' type hmem) hr' hr h.symm).2.symm
    | true =>
      have hinner' := TypeRef.Clear.function suspend' false hresult' hclear'
      rw [nullable_append, nullable_append] at h
      obtain ⟨heq, hrest⟩ := htold _ _ _ hinner' (stops_cons rfl _) (stops_cons rfl _)
        (List.cons.inj h).2
      cases heq
      exact ⟨rfl, (List.cons.inj (List.cons.inj hrest).2).2⟩

end Function

/-- The text of a normal type tells which type it is. -/
theorem TypeRef.Clear.told {type : TypeRef} (h : type.Clear) :
    Told TypeRef.chars TypeRef.Clear type := by
  induction h with
  | user nullable hname hclear ih =>
    refine told_user nullable hname (clear_arguments hclear) ?_
    intro argument hmem
    refine TypeArgument.told (clear_arguments hclear argument hmem) ?_
    rintro variance type rfl
    exact ih variance type hmem
  | function suspend nullable hresult hclear ihresult ihparameters =>
    -- The type in the parentheses is no part of the one that can be null, so it has no hypothesis.
    have hplain := told_function suspend ihresult hclear ihparameters
    cases nullable with
    | false => exact hplain
    | true => exact told_nullable suspend (.function suspend false hresult hclear) hplain

theorem TypeArgument.Clear.told {argument : TypeArgument} (h : argument.Clear) :
    Told TypeArgument.chars TypeArgument.Clear argument :=
  TypeArgument.told h fun variance type heq => (h variance type heq).told

theorem TypeRef.clear_inArrays {core : TypeCore}
    (h : ∀ nullable, (TypeRef.mk core 0 nullable).Clear) (n : Nat) (nullable : Bool) :
    (inArrays core n nullable).Clear := by
  induction n generalizing nullable with
  | zero => exact h nullable
  | succ n ih =>
    refine .user nullable (by decide) fun variance type hmem => ?_
    cases List.mem_singleton.mp hmem
    exact ih false

theorem PrimitiveType.isDotted_kotlin (type : PrimitiveType) : IsDotted type.kotlin := by
  obtain ⟨kind, array⟩ := type
  cases kind <;> cases array <;> decide

mutual

theorem TypeRef.clear_normal :
    ∀ {type : TypeRef}, (∀ name ∈ type.words, IsDotted name) → type.normal.Clear
  | ⟨_, n, nullable⟩, h => TypeRef.clear_inArrays (TypeCore.clear_normal h) n nullable

theorem TypeCore.clear_normal : ∀ {core : TypeCore}, (∀ name ∈ core.words, IsDotted name) →
    ∀ nullable, (TypeRef.mk core.normal 0 nullable).Clear
  | .primitive type, _, nullable => .user nullable type.isDotted_kotlin nofun
  | .user ⟨_, _⟩, h, nullable =>
    have ⟨hname, harguments⟩ := List.forall_mem_cons.mp h
    .user nullable hname (TypeArgument.clear_normalEach harguments)
  | .function suspend _ _, h, nullable =>
    have ⟨hresult, hparameters⟩ := List.forall_mem_append.mp h
    .function suspend nullable (TypeRef.clear_normal hresult)
      (TypeRef.clear_normalEach hparameters)

theorem TypeRef.clear_normalEach :
    ∀ {types : List TypeRef}, (∀ name ∈ TypeRef.wordsEach types, IsDotted name) →
      ∀ type ∈ TypeRef.normalEach types, type.Clear
  | [], _ => nofun
  | _ :: _, h =>
    have ⟨htype, htypes⟩ := List.forall_mem_append.mp h
    List.forall_mem_cons.mpr ⟨TypeRef.clear_normal htype, TypeRef.clear_normalEach htypes⟩

theorem TypeArgument.clear_normalEach :
    ∀ {arguments : List TypeArgument}, (∀ name ∈ TypeArgument.wordsEach arguments, IsDotted name) →
      ∀ variance type, TypeArgument.concrete variance type ∈ TypeArgument.normalEach arguments →
        type.Clear
  | [], _, _, _, hmem => nomatch hmem
  | .wildcard :: _, h, variance, type, hmem =>
    have ⟨_, harguments⟩ := List.forall_mem_append.mp h
    (List.mem_cons.mp hmem).elim nofun (TypeArgument.clear_normalEach harguments variance type)
  | .concrete _ _ :: _, h, variance, type, hmem => by
    obtain ⟨htype, harguments⟩ := List.forall_mem_append.mp h
    rcases List.mem_cons.mp hmem with heq | hmem
    · cases heq
      exact TypeRef.clear_normal htype
    · exact TypeArgument.clear_normalEach harguments variance type hmem

end

/-- A function type that can be null, with `int[][]` as its parameter. -/
def matrixFunction : TypeRef :=
  ⟨.function true ⟨.user ⟨"a.B", [.wildcard]⟩, 0, true⟩
    [⟨.primitive ⟨.int, true⟩, 1, false⟩], 0, true⟩

/-- The same with `Array<IntArray>` in place of `int[][]`. -/
def nestedFunction : TypeRef :=
  ⟨.function true ⟨.user ⟨"a.B", [.wildcard]⟩, 0, true⟩
    [⟨.user ⟨"Array", [.concrete none ⟨.user ⟨"IntArray", []⟩, 0, false⟩]⟩, 0, false⟩], 0, true⟩

end QuovaKotlin.Ast

import QuovaKotlin.Proofs.PrintedGroups

/-!
# Chains of prefix operators

Prefix operators are printed without blanks, so two of them could run into one: `- -x` must not
become `--x`. Here the text of a chain is cut into tokens, each the longest that is there, and the
operators come out one by one. The parentheses behind `+` and `-` are what keeps them apart; behind
`++`, `--` and `!` none are needed, as no token goes on behind one of these.
-/

set_option autoImplicit false

namespace QuovaKotlin.Signs

open Lexical (isWordChar)

/-- The tokens other than names. -/
def marks : List (List Char) :=
  ["++", "--", "+", "-", "!", "(", ")"].map String.toList

/-- A word that does not start like a number. -/
def isName : List Char → Bool
  | [] => false
  | x :: w => ! x.isDigit && (x :: w).all isWordChar

def isToken (w : List Char) : Bool :=
  marks.contains w || isName w

/-- The longest token at the start of a text, of at most the given length. -/
def longestUpTo (text : List Char) : Nat → Option (List Char)
  | 0 => none
  | n + 1 => if isToken (text.take (n + 1)) then some (text.take (n + 1)) else longestUpTo text n

/-- Takes the longest token again and again, as often as there is fuel. -/
def cut : Nat → List Char → Option (List String)
  | _, [] => some []
  | 0, _ :: _ => none
  | fuel + 1, text =>
    (longestUpTo text text.length).bind fun w =>
      (cut fuel (text.drop w.length)).map (.ofList w :: ·)

/-- The tokens of a text, if it is nothing but tokens. -/
def tokens? (text : String) : Option (List String) :=
  cut text.toList.length text.toList

/-- Neither of the parentheses. -/
def isInner (token : String) : Bool :=
  token ≠ "(" && token ≠ ")"

/-- The text goes on with the token `w`, and with none that is longer. -/
structure IsNext (w rest : List Char) : Prop where
  token : isToken w
  longest : ∀ u, isToken u → u <+: w ++ rest → u.length ≤ w.length

theorem ne_nil_of_isToken {w : List Char} (h : isToken w) : w ≠ [] := by
  rintro rfl
  exact absurd h (by decide)

theorem IsNext.longestUpTo_eq {w rest : List Char} (h : IsNext w rest) {n : Nat}
    (hle : w.length ≤ n) (hn : n ≤ (w ++ rest).length) : longestUpTo (w ++ rest) n = some w := by
  induction n with
  | zero => exact absurd (List.eq_nil_of_length_eq_zero (by omega)) (ne_nil_of_isToken h.token)
  | succ n ih =>
    rw [longestUpTo]
    by_cases hlength : w.length = n + 1
    · rw [← hlength, List.take_left, if_pos h.token]
    · -- a longer token is not there
      have hno : ¬ isToken ((w ++ rest).take (n + 1)) := by
        intro htoken
        have hshort := h.longest _ htoken (List.take_prefix _ _)
        rw [List.length_take] at hshort
        omega
      rw [if_neg hno]
      exact ih (by omega) (by omega)

/-- A text as a row of tokens, each the longest that is there. -/
inductive Cuts : List Char → List String → Prop
  | done : Cuts [] []
  | next {w rest : List Char} {ts : List String} :
      IsNext w rest → Cuts rest ts → Cuts (w ++ rest) (.ofList w :: ts)

theorem Cuts.cut_eq {text : List Char} {ts : List String} (h : Cuts text ts) {fuel : Nat}
    (hfuel : text.length ≤ fuel) : cut fuel text = some ts := by
  induction h generalizing fuel with
  | done => cases fuel <;> rfl
  | @next w rest ts hnext _ ih =>
    have hlength : (w ++ rest).length = w.length + rest.length := List.length_append
    have hlongest := hnext.longestUpTo_eq (n := (w ++ rest).length) (by omega) (Nat.le_refl _)
    obtain ⟨x, v, rfl⟩ := List.exists_cons_of_ne_nil (ne_nil_of_isToken hnext.token)
    rw [List.length_cons] at hlength
    cases fuel with
    | zero => omega
    | succ fuel =>
      have hcut : cut (fuel + 1) (x :: v ++ rest) =
          (longestUpTo (x :: v ++ rest) (x :: v ++ rest).length).bind fun w =>
            (cut fuel ((x :: v ++ rest).drop w.length)).map (.ofList w :: ·) := rfl
      rw [hcut, hlongest, Option.bind_some, List.drop_left, ih (by omega), Option.map_some]

theorem Cuts.tokens?_eq {text : String} {ts : List String} (h : Cuts text.toList ts) :
    tokens? text = some ts :=
  h.cut_eq (Nat.le_refl _)

/-- No mark starts like a word, and none has more than two characters. -/
theorem of_mem_marks {x : Char} {u : List Char} (h : x :: u ∈ marks) :
    ¬ isWordChar x ∧ u.length ≤ 1 := by
  have hall : ∀ w ∈ marks, w.head?.any isWordChar = false ∧ w.length ≤ 2 := by decide
  obtain ⟨hhead, hlength⟩ := hall _ h
  exact ⟨Bool.eq_false_iff.mp hhead, Nat.le_of_succ_le_succ hlength⟩

theorem isToken_of_mem_marks {w : List Char} (h : w ∈ marks) : isToken w := by
  simp [isToken, h]

/-- A token longer than the one in front of `rest` goes on with the next character. -/
theorem exists_longer {w rest u : List Char} (hstarts : u <+: w ++ rest)
    (hlong : w.length < u.length) : ∃ y s, u = w ++ y :: s ∧ y ∈ rest.head? := by
  obtain ⟨s, rfl⟩ : w <+: u :=
    List.prefix_of_prefix_length_le (List.prefix_append _ _) hstarts (Nat.le_of_lt hlong)
  obtain ⟨s', hs'⟩ := (List.prefix_append_right_inj _).mp hstarts
  cases s with
  | nil => simp at hlong
  | cons y s => exact ⟨y, s, rfl, by rw [← hs']; rfl⟩

/-- A mark is the next token, if it does not go on as another one. -/
theorem isNext_of_mark {w rest : List Char} (hw : w ∈ marks)
    (hrest : ∀ y ∈ rest.head?, w ++ [y] ∉ marks) : IsNext w rest := by
  refine ⟨isToken_of_mem_marks hw, fun u hu hstarts => Nat.not_lt.mp fun hlong => ?_⟩
  obtain ⟨y, s, rfl, hy⟩ := exists_longer hstarts hlong
  obtain ⟨x, v, rfl⟩ := List.exists_cons_of_ne_nil (ne_nil_of_isToken (isToken_of_mem_marks hw))
  rcases Bool.or_eq_true_iff.mp hu with hmark | hname
  · have hmem : x :: (v ++ y :: s) ∈ marks := List.contains_iff_mem.mp hmark
    have hlength := (of_mem_marks hmem).2
    rw [List.length_append, List.length_cons] at hlength
    obtain rfl : s = [] := List.eq_nil_of_length_eq_zero (by omega)
    exact hrest y hy hmem
  · simp only [List.cons_append, isName, List.all_cons, Bool.and_eq_true] at hname
    exact (of_mem_marks hw).1 hname.2.1

/-- A name is the next token, if no word goes on behind it. -/
theorem isNext_of_isName {w rest : List Char} (hw : isName w) (hrest : Lexical.OffWord rest) :
    IsNext w rest := by
  refine ⟨by simp [isToken, hw], fun u hu hstarts => Nat.not_lt.mp fun hlong => ?_⟩
  obtain ⟨y, s, rfl, hy⟩ := exists_longer hstarts hlong
  cases w with
  | nil => cases hw
  | cons x v =>
    rcases Bool.or_eq_true_iff.mp hu with hmark | hname
    · simp only [isName, List.all_cons, Bool.and_eq_true] at hw
      exact (of_mem_marks (List.contains_iff_mem.mp hmark)).1 hw.2.1
    · simp only [List.cons_append, isName, List.all_cons, List.all_append, Bool.and_eq_true]
        at hname
      exact hrest y hy hname.2.2.2.1

end QuovaKotlin.Signs

namespace QuovaKotlin.Ast

open Signs

/-- The operators in front of a name, the first of them outermost. -/
def prefixChain (operators : List PrefixOperator) (name : String) : Expression :=
  operators.foldr .prefixed (.identifier name)

theorem priority_prefixChain (operators : List PrefixOperator) (name : String) :
    (prefixChain operators name).priority ≤ Priority.prefixed := by
  cases operators with
  | nil => exact show Priority.primary ≤ Priority.prefixed by decide
  | cons => exact Int.le_refl _

theorem PrefixOperator.symbol_mem_marks {operator : PrefixOperator} (h : operator.IsPlain) :
    operator.symbol.toList ∈ marks := by
  cases operator with
  | complement | reference => exact h.elim
  | _ => decide

/-- Only `+` and `-` go on as another mark, and both with themselves. -/
theorem PrefixOperator.isNext_symbol {operator : PrefixOperator} (h : operator.IsPlain)
    {rest : List Char} (hrest : operator.isSign → ∀ y ∈ rest.head?, y ≠ '+' ∧ y ≠ '-') :
    IsNext operator.symbol.toList rest := by
  refine isNext_of_mark (symbol_mem_marks h) fun y hy hmem => ?_
  have hlonger : ∀ u ∈ marks, operator.symbol.toList <+: u → u = operator.symbol.toList ∨
      operator.isSign ∧ (u.getLast? = some '+' ∨ u.getLast? = some '-') := by
    cases operator with
    | complement | reference => exact h.elim
    | plus | minus | increment | decrement | not => decide
  rcases hlonger _ hmem (List.prefix_append _ _) with heq | ⟨hsign, hlast⟩
  · simp at heq
  · rw [List.getLast?_concat] at hlast
    obtain ⟨hplus, hminus⟩ := hrest hsign y hy
    rcases hlast with hlast | hlast
    · exact hplus (Option.some.inj hlast)
    · exact hminus (Option.some.inj hlast)

theorem isInner_symbol {operator : PrefixOperator} (h : operator.IsPlain) :
    isInner operator.symbol := by
  cases operator with
  | complement | reference => exact h.elim
  | _ => decide

theorem isName_of_isIdentifier {name : String} (h : IsIdentifier name) : isName name.toList := by
  obtain ⟨x, w, hname, hx, hw⟩ := h
  rw [hname]
  simp only [isName, hw, Bool.and_true, Bool.not_eq_true']
  simpa using hx

theorem isInner_identifier {name : String} (h : IsIdentifier name) : isInner name := by
  obtain ⟨x, w, hname, -, hw⟩ := h
  have hx : Lexical.isWordChar x := List.all_eq_true.mp hw x List.mem_cons_self
  have hne (mark : String) (hmark : mark.toList.head?.any Lexical.isWordChar = false) :
      name ≠ mark := by
    rintro rfl
    rw [hname] at hmark
    exact Bool.eq_false_iff.mp hmark hx
  simp [isInner, hne "(" (by decide), hne ")" (by decide)]

/-- A chain of at least one operator starts with that operator, and a name with a letter. -/
theorem head_prefixChain {operators : List PrefixOperator} {name : String}
    (hname : IsIdentifier name) (hprefixed : ¬ (prefixChain operators name).isPrefixed)
    (rest : List Char) :
    ∀ y ∈ ((prefixChain operators name).kotlin.toList ++ rest).head?, y ≠ '+' ∧ y ≠ '-' := by
  cases operators with
  | cons operator operators => exact absurd rfl hprefixed
  | nil =>
    obtain ⟨x, w, hchars, -, hw⟩ := hname
    have hx : Lexical.isWordChar x := List.all_eq_true.mp hw x List.mem_cons_self
    intro y hy
    have hhead : (name.toList ++ rest).head? = some y := hy
    rw [hchars] at hhead
    obtain rfl : x = y := Option.some.inj hhead
    constructor <;> rintro rfl <;> exact absurd hx (by decide)

/-- The tokens of a chain, in front of an end or a parenthesis. -/
theorem cuts_prefixChain {operators : List PrefixOperator} (hplain : ∀ o ∈ operators, o.IsPlain)
    {name : String} (hname : IsIdentifier name) {rest : List Char} {us : List String}
    (hrest : Lexical.OffWord rest) (h : Cuts rest us) :
    ∃ ts, Cuts ((prefixChain operators name).kotlin.toList ++ rest) (ts ++ us) ∧
      ts.filter isInner = operators.map PrefixOperator.symbol ++ [name] := by
  induction operators generalizing rest us with
  | nil =>
    refine ⟨[name], ?_, List.filter_cons_of_pos (isInner_identifier hname)⟩
    have hcuts := Cuts.next (isNext_of_isName (isName_of_isIdentifier hname) hrest) h
    rwa [String.ofList_toList] at hcuts
  | cons operator operators ih =>
    obtain ⟨hoperator, hplain⟩ := List.forall_mem_cons.mp hplain
    have htext : (prefixChain (operator :: operators) name).kotlin = _ :=
      PrefixOperator.before_eq (r := ⟨_, (prefixChain operators name).kotlin⟩) hoperator
        (priority_prefixChain operators name) (prefixChain operators name).isPrefixed
    have hsymbol := isInner_symbol hoperator
    by_cases hparens : operator.isSign && (prefixChain operators name).isPrefixed
    · -- the operand stands in parentheses, so it may start with the same sign
      have hclosing : Cuts (')' :: rest) (")" :: us) :=
        .next (isNext_of_mark (w := [')']) (by decide) fun y _ => by simp [marks]) h
      obtain ⟨ts, hcuts, hinner⟩ := ih hplain (by simp [Lexical.OffWord]; decide) hclosing
      have hopening := Cuts.next
        (isNext_of_mark (w := ['(']) (by decide) fun y _ => by simp [marks]) hcuts
      have hwhole := Cuts.next (operator.isNext_symbol hoperator fun _ => by simp) hopening
      refine ⟨operator.symbol :: "(" :: (ts ++ [")"]), ?_, ?_⟩
      · rw [String.ofList_toList] at hwhole
        rw [htext, if_pos hparens]
        simpa using hwhole
      · have hbrackets : isInner "(" = false ∧ isInner ")" = false := by decide
        simp [hsymbol, hbrackets, hinner]
    · obtain ⟨ts, hcuts, hinner⟩ := ih hplain hrest h
      have hhead (hsign : operator.isSign) :
          ∀ y ∈ ((prefixChain operators name).kotlin.toList ++ rest).head?, y ≠ '+' ∧ y ≠ '-' :=
        head_prefixChain hname (fun hprefixed => hparens (by simp [hsign, hprefixed])) rest
      have hwhole := Cuts.next (operator.isNext_symbol hoperator hhead) hcuts
      refine ⟨operator.symbol :: ts, ?_, ?_⟩
      · rw [String.ofList_toList] at hwhole
        rw [htext, if_neg hparens]
        simpa using hwhole
      · rw [List.filter_cons_of_pos hsymbol, hinner]
        rfl

/-- Prefix operators in a row do not run into each other: cut into the longest tokens, and without
its parentheses, the text of a chain is the row of its operators and the name. -/
theorem prefix_chain_tokens (operators : List PrefixOperator)
    (hplain : ∀ operator ∈ operators, operator.IsPlain) {name : String}
    (hname : IsIdentifier name) :
    (tokens? (prefixChain operators name).kotlin).map (·.filter isInner) =
      some (operators.map PrefixOperator.symbol ++ [name]) := by
  have hend : Lexical.OffWord [] := nofun
  obtain ⟨ts, hcuts, hinner⟩ := cuts_prefixChain hplain hname hend .done
  rw [List.append_nil, List.append_nil] at hcuts
  rw [hcuts.tokens?_eq, Option.map_some, hinner]

/-- `- -- + ! ! ++ + x`, with every operator that another one could run into. -/
def mixedChain : List PrefixOperator :=
  [.minus, .decrement, .plus, .not, .not, .increment, .plus]

theorem mixedChain_tokens :
    (∀ operator ∈ mixedChain, operator.IsPlain) ∧ IsIdentifier "x" ∧
      (prefixChain mixedChain "x").kotlin = "-(--+(!!+++x))" ∧
      (tokens? "-(--+(!!+++x))").map (·.filter isInner) =
        some ["-", "--", "+", "!", "!", "++", "+", "x"] := by
  have hplain : ∀ operator ∈ mixedChain, operator.IsPlain := by
    simp [mixedChain, PrefixOperator.IsPlain]
  have hname : IsIdentifier "x" := ⟨'x', [], rfl, by decide, by decide⟩
  have htext : (prefixChain mixedChain "x").kotlin = "-(--+(!!+++x))" := rfl
  have htokens := prefix_chain_tokens mixedChain hplain hname
  rw [htext] at htokens
  exact ⟨hplain, hname, htext, htokens⟩

end QuovaKotlin.Ast

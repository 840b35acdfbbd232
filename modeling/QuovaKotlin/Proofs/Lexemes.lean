import Mathlib.Data.List.Find
import QuovaKotlin.Proofs.Evaluation

/-!
# Lexemes

A text as a sequence of words, numbers and symbols, the longest first, with blanks and comments left
out. The words and symbols are those of source and Kotlin expressions alike, so one scanner reads
both.
-/

set_option autoImplicit false

namespace QuovaKotlin.Peg

/-- What skipping leaves, it would leave again. Inside an open comment this holds because the scan
from its opening is the one that is going on. -/
theorem Layout.skipFrom_skipFrom (state : Layout.State) (index : Nat) (rest : List Char)
    (hstate : ∀ opening, state = .blockComment opening →
      Layout.skipFrom .between opening.index opening.rest = Layout.skipFrom state index rest) :
    Layout.skipFrom .between (Layout.skipFrom state index rest).index
      (Layout.skipFrom state index rest).rest = Layout.skipFrom state index rest := by
  fun_induction Layout.skipFrom state index rest with
  | case1 index rest ih => exact ih (by simp)
  | case2 index rest ih =>
    refine ih ?_
    intro opening hopening
    cases hopening
    rw [Layout.skipFrom]
  | case3 index c rest _ _ hblank ih => exact ih (by simp)
  | case4 index c rest hline hblock hblank => simp_all [Layout.skipFrom]
  | case5 index c rest _ ih => exact ih (by simp)
  | case6 index c rest _ ih => exact ih (by simp)
  | case7 opening index rest ih => exact ih (by simp)
  | case8 opening index c rest hclose ih =>
    refine ih ?_
    intro opening' hopening
    cases hopening
    exact hstate opening rfl
  | case9 opening => exact hstate opening rfl
  | case10 state index hopen =>
    cases state with
    | between | lineComment => simp [Layout.skipFrom]
    | blockComment opening => exact absurd rfl (hopen opening)

theorem Cursor.skipLayout_skipLayout (c : Cursor) : c.skipLayout.skipLayout = c.skipLayout :=
  Layout.skipFrom_skipFrom .between c.index c.rest (by simp)

/-- Layout starts with a blank or a slash. -/
theorem Cursor.skipLayout_eq_self {c : Cursor}
    (h : ∀ x ∈ c.rest.head?, ¬ Layout.isBlank x ∧ x ≠ '/') : c.skipLayout = c := by
  obtain ⟨index, rest⟩ := c
  cases rest with
  | nil => simp [Cursor.skipLayout, Layout.skipFrom]
  | cons x rest =>
    obtain ⟨hblank, hslash⟩ := h x rfl
    simp [Cursor.skipLayout, Layout.skipFrom, hslash, hblank]

end QuovaKotlin.Peg

namespace QuovaKotlin.Lexical

open Peg

def isWordChar (c : Char) : Bool :=
  c.isAlphanum || c == '_' || c == '$'

def isDigitOrMark (c : Char) : Bool :=
  c.isDigit || c == '_'

/-- The fraction at the start of a text, if there is one; `..` starts none. -/
def fraction : List Char → List Char
  | '.' :: d :: cs => if d.isDigit then '.' :: d :: cs.takeWhile isDigitOrMark else []
  | _ => []

def sign : List Char → List Char
  | c :: _ => if c = '+' ∨ c = '-' then [c] else []
  | [] => []

/-- The exponent at the start of a text, if there is one; it has a digit. -/
def exponent : List Char → List Char
  | [] => []
  | e :: cs =>
    let digits := (cs.drop (sign cs).length).takeWhile Char.isDigit
    if (e = 'e' ∨ e = 'E') ∧ digits ≠ [] then e :: (sign cs ++ digits) else []

/-- A number: digits, a fraction, an exponent, and then letters, which hold what other bases and
suffixes need. -/
def number (cs : List Char) : List Char :=
  let whole := cs.takeWhile isDigitOrMark
  let behindWhole := cs.drop whole.length
  let part := fraction behindWhole
  let behindPart := behindWhole.drop part.length
  let power := exponent behindPart
  let behindPower := behindPart.drop power.length
  whole ++ (part ++ (power ++ behindPower.takeWhile isWordChar))

/-- The symbols of more than one character, longest first. -/
def symbols : List (List Char) :=
  ["===", "!==", ">>>", "==", "!=", "<=", ">=", "<<", ">>", "&&", "||", "??", "?:", "..", "++",
    "--"].map String.toList

/-- The lexeme at the start of a text. -/
def lexeme : List Char → List Char
  | [] => []
  | c :: cs =>
    if c.isDigit then number (c :: cs)
    else if isWordChar c then (c :: cs).takeWhile isWordChar
    else (symbols.find? (·.isPrefixOf (c :: cs))).getD [c]

/-- The lexemes from a place on, as far as they stand in front of `stop`. -/
def lexemesFrom (stop : Nat) : Nat → Cursor → List String
  | 0, _ => []
  | fuel + 1, c =>
    let c := c.skipLayout
    let w := lexeme (c.rest.take (stop - c.index))
    if w = [] then []
    else .ofList w :: lexemesFrom stop fuel ⟨c.index + w.length, c.rest.drop w.length⟩

/-- The lexemes of the part of a text from `start` up to `stop`. -/
def lexemesBetween (text : String) (start stop : Nat) : List String :=
  lexemesFrom stop (stop - start + 1) ⟨start, text.toList.drop start⟩

/-- The lexemes of a text. -/
def lexemes (text : String) : List String :=
  lexemesBetween text 0 text.toList.length

/-- The input from a place up to `stop`. -/
def upTo (stop : Nat) (c : Cursor) : List Char :=
  c.rest.take (stop - c.index)

theorem upTo_of_passes {stop : Nat} {c d : Cursor} {w : List Char} (h : c.Passes w d)
    (hstop : d.index ≤ stop) : upTo stop c = w ++ upTo stop d := by
  have hindex := h.index_eq
  have hlength : stop - c.index = w.length + (stop - d.index) := by omega
  rw [upTo, upTo, h.rest_eq, hlength, List.take_length_add_append]

theorem upTo_of_le {stop : Nat} {c : Cursor} (h : stop ≤ c.index) : upTo stop c = [] := by
  rw [upTo, Nat.sub_eq_zero_of_le h, List.take_zero]

/-- The input is scanned from one place to another, lexeme by lexeme, with layout in between. -/
inductive Scans (stop : Nat) : Cursor → List String → Cursor → Prop
  | done (c : Cursor) : Scans stop c [] c
  | skip {c d : Cursor} {ts : List String} : Scans stop c.skipLayout ts d → Scans stop c ts d
  | next {c d e : Cursor} {w : List Char} {ts : List String} :
      c.skipLayout = c → c.Passes w d → d.index ≤ stop → w ≠ [] →
      lexeme (w ++ upTo stop d) = w → Scans stop d ts e → Scans stop c (.ofList w :: ts) e

namespace Scans

variable {stop : Nat} {c d e : Cursor} {ts us : List String}

theorem trans (h : Scans stop c ts d) (h' : Scans stop d us e) : Scans stop c (ts ++ us) e := by
  induction h with
  | done => exact h'
  | skip _ ih => exact .skip (ih h')
  | next hskip hpasses hstop hne hlexeme _ ih =>
    exact .next hskip hpasses hstop hne hlexeme (ih h')

theorem one {w : List Char} (hskip : c.skipLayout = c) (hpasses : c.Passes w d)
    (hstop : d.index ≤ stop) (hne : w ≠ []) (hlexeme : lexeme (w ++ upTo stop d) = w) :
    Scans stop c [.ofList w] d :=
  .next hskip hpasses hstop hne hlexeme (.done d)

theorem layout (h : c.skipLayout = d) : Scans stop c [] d :=
  .skip (h ▸ .done c.skipLayout)

theorem length_le (h : Scans stop c ts d) : ts = [] ∨ c.index + ts.length ≤ stop := by
  induction h with
  | done => exact .inl rfl
  | @skip c d ts _ ih =>
    obtain ⟨v, hv⟩ := c.skipLayout_passes
    have hindex := hv.index_eq
    rcases ih with ih | ih
    · exact .inl ih
    · right
      omega
  | @next c d e w ts _ hpasses hstop hne _ _ ih =>
    have hindex := hpasses.index_eq
    have hpos := List.length_pos_iff.mpr hne
    right
    rw [List.length_cons]
    rcases ih with rfl | ih
    · rw [List.length_nil]
      omega
    · omega

/-- A scan that comes to the end is what the scanner does. -/
theorem lexemesFrom_eq (h : Scans stop c ts d) (hend : stop ≤ d.skipLayout.index) {fuel : Nat}
    (hfuel : ts.length < fuel) : lexemesFrom stop fuel c = ts := by
  induction h generalizing fuel with
  | done c =>
    cases fuel with
    | zero => omega
    | succ fuel =>
      have hnil := upTo_of_le hend
      rw [upTo] at hnil
      simp only [lexemesFrom, hnil, lexeme, if_true]
  | @skip c d ts _ ih =>
    have hscan := ih hend hfuel
    cases fuel with
    | zero => omega
    | succ fuel =>
      rw [lexemesFrom] at hscan ⊢
      rw [c.skipLayout_skipLayout] at hscan
      exact hscan
  | @next c d e w ts hskip hpasses hstop hne hlexeme _ ih =>
    cases fuel with
    | zero => omega
    | succ fuel =>
      have hscan := ih hend (Nat.lt_of_succ_lt_succ hfuel)
      have hview := upTo_of_passes hpasses hstop
      rw [upTo] at hview
      have hd : d = ⟨c.index + w.length, c.rest.drop w.length⟩ := by
        rw [hpasses.rest_eq, List.drop_left, ← hpasses.index_eq]
      rw [lexemesFrom]
      simp only [hskip, hview, hlexeme, if_neg hne]
      rw [← hd, hscan]

theorem lexemesBetween_eq {text : String} {start : Nat}
    (h : Scans stop ⟨start, text.toList.drop start⟩ ts d) (hend : stop ≤ d.skipLayout.index) :
    lexemesBetween text start stop = ts := by
  refine h.lexemesFrom_eq hend ?_
  rcases h.length_le with rfl | hle
  · rw [List.length_nil]
    omega
  · change start + ts.length ≤ stop at hle
    omega

end Scans

/-- The input from `c` to `d` is scanned as `ts` wherever the view at `d` satisfies `after`. What a
lexeme is depends on what follows it; in return a segment gives a condition on the view in front of
it, so that segments can be put side by side. -/
structure Segment (before after : List Char → Prop) (c : Cursor) (ts : List String) (d : Cursor) :
    Prop where
  le : c.index ≤ d.index
  scans {stop : Nat} : d.index ≤ stop → after (upTo stop d) → Scans stop c ts d
  front {stop : Nat} : d.index ≤ stop → after (upTo stop d) → before (upTo stop c)

namespace Segment

variable {before between after : List Char → Prop} {c d e : Cursor} {ts us : List String}

theorem append (h : Segment before between c ts d) (h' : Segment between after d us e) :
    Segment before after c (ts ++ us) e where
  le := Nat.le_trans h.le h'.le
  scans hstop hafter :=
    have hd := Nat.le_trans h'.le hstop
    (h.scans hd (h'.front hstop hafter)).trans (h'.scans hstop hafter)
  front hstop hafter := h.front (Nat.le_trans h'.le hstop) (h'.front hstop hafter)

theorem mono {before' after' : List Char → Prop} (h : Segment before after c ts d)
    (hbefore : ∀ view, before view → before' view) (hafter : ∀ view, after' view → after view) :
    Segment before' after' c ts d where
  le := h.le
  scans hstop hview := h.scans hstop (hafter _ hview)
  front hstop hview := hbefore _ (h.front hstop (hafter _ hview))

theorem refl (c : Cursor) : Segment before before c [] c where
  le := Nat.le_refl _
  scans _ _ := .done c
  front _ hview := hview

/-- One lexeme. -/
theorem one {w : List Char} (hskip : c.skipLayout = c) (hpasses : c.Passes w d) (hne : w ≠ [])
    (hlexeme : ∀ stop, d.index ≤ stop → after (upTo stop d) → lexeme (w ++ upTo stop d) = w)
    (hbefore : ∀ view, after view → before (w ++ view)) :
    Segment before after c [.ofList w] d where
  le := by
    have hindex := hpasses.index_eq
    omega
  scans hstop hview := .one hskip hpasses hstop hne (hlexeme _ hstop hview)
  front hstop hview := by
    rw [upTo_of_passes hpasses hstop]
    exact hbefore _ hview

/-- Layout, under a condition that a blank or a slash in front does not disturb. -/
theorem layout (hlayout : ∀ x view, Layout.isBlank x ∨ x = '/' → before (x :: view)) (c : Cursor) :
    Segment before before c [] c.skipLayout where
  le := by
    obtain ⟨v, hv⟩ := c.skipLayout_passes
    have hindex := hv.index_eq
    omega
  scans _ _ := .layout rfl
  front {stop} hstop hview := by
    obtain ⟨v, hv⟩ := c.skipLayout_passes
    rw [upTo_of_passes hv hstop]
    cases v with
    | nil => exact hview
    | cons x v =>
      apply hlayout
      apply Classical.byContradiction
      intro hx
      have hself : c.skipLayout = c := by
        refine Cursor.skipLayout_eq_self ?_
        intro y hy
        rw [hv.rest_eq] at hy
        obtain rfl : x = y := by simpa using hy
        exact not_or.mp hx
      have hindex := hv.index_eq
      rw [hself, List.length_cons] at hindex
      omega

end Segment

/-- The view goes on with something that is no part of a word. -/
def OffWord (view : List Char) : Prop :=
  ∀ x ∈ view.head?, ¬ isWordChar x

theorem takeWhile_append_of_head {p : Char → Bool} {w view : List Char} (hw : ∀ x ∈ w, p x)
    (hview : ∀ x ∈ view.head?, ¬ p x) : (w ++ view).takeWhile p = w := by
  have hrest : view.takeWhile p = [] := by
    cases view with
    | nil => rfl
    | cons x view => exact List.takeWhile_cons_of_neg (hview x rfl)
  rw [List.takeWhile_append_of_pos hw, hrest, List.append_nil]

theorem lexeme_word {x : Char} {w view : List Char} (hx : ¬ x.isDigit)
    (hw : ∀ y ∈ x :: w, isWordChar y) (hview : OffWord view) :
    lexeme (x :: w ++ view) = x :: w := by
  rw [List.cons_append, lexeme, if_neg hx, if_pos (hw x List.mem_cons_self), ← List.cons_append]
  exact takeWhile_append_of_head hw hview

/-- Some symbol goes on with `x` behind `s`. -/
def Extends (s : List Char) (x : Char) : Prop :=
  ∃ t ∈ symbols, s ++ [x] <+: t

instance (s : List Char) (x : Char) : Decidable (Extends s x) :=
  inferInstanceAs (Decidable (∃ t ∈ symbols, s ++ [x] <+: t))

/-- A symbol that nothing extends is found again in front of any view. -/
theorem find_symbols_append {s view : List Char} (h : ∀ x ∈ view.head?, ¬ Extends s x) :
    symbols.find? (·.isPrefixOf (s ++ view)) = symbols.find? (·.isPrefixOf s) := by
  apply List.find?_congr
  intro t ht
  rw [Bool.eq_iff_iff, List.isPrefixOf_iff_prefix, List.isPrefixOf_iff_prefix]
  constructor
  · intro hprefix
    cases view with
    | nil => rwa [List.append_nil] at hprefix
    | cons x view =>
      have hlong : s ++ [x] <+: s ++ x :: view := ⟨view, by simp⟩
      rcases List.prefix_or_prefix_of_prefix hprefix hlong with hle | hle
      · rcases List.prefix_concat_iff.mp hle with heq | hle
        · exact absurd ⟨t, ht, heq ▸ List.prefix_rfl⟩ (h x rfl)
        · exact hle
      · exact absurd ⟨t, ht, hle⟩ (h x rfl)
  · intro hprefix
    exact hprefix.trans (List.prefix_append s view)

theorem lexeme_symbol {x : Char} {s view : List Char} (hx : ¬ isWordChar x)
    (hself : lexeme (x :: s) = x :: s) (h : ∀ y ∈ view.head?, ¬ Extends (x :: s) y) :
    lexeme (x :: s ++ view) = x :: s := by
  have hdigit : ¬ x.isDigit := by
    intro hdigit
    apply hx
    simp [isWordChar, Char.isAlphanum, hdigit]
  rw [lexeme, if_neg hdigit, if_neg hx] at hself
  rw [List.cons_append, lexeme, if_neg hdigit, if_neg hx, ← List.cons_append,
    find_symbols_append h, hself]

/-- What may stand behind an operator: layout, a sign, a parenthesis or a word. -/
def isOpening (x : Char) : Bool :=
  Peg.Layout.isBlank x || x == '/' || x == '+' || x == '-' || x == '!' || x == '(' || isWordChar x

theorem eq_of_prefix_append {s : List Char} {a x : Char} (hs : s ≠ [])
    (h : s ++ [x] <+: [a, x]) : s = [a] := by
  obtain ⟨u, hu⟩ := h
  cases s with
  | nil => exact absurd rfl hs
  | cons y s =>
    have hlength := congrArg List.length hu
    simp only [List.length_append, List.length_cons, List.length_nil] at hlength
    obtain rfl : s = [] := List.eq_nil_of_length_eq_zero (by omega)
    obtain ⟨rfl, -⟩ := List.cons.inj hu
    rfl

/-- Of what stands behind an operator only a sign extends a symbol, and only the same sign. -/
theorem not_extends_of_isOpening {s : List Char} {x : Char} (hs : s ≠ []) (hx : isOpening x)
    (hplus : x = '+' → s ≠ ['+']) (hminus : x = '-' → s ≠ ['-']) : ¬ Extends s x := by
  rintro ⟨t, ht, hprefix⟩
  have hmem : x ∈ t.tail := by
    obtain ⟨u, rfl⟩ := hprefix
    cases s with
    | nil => exact absurd rfl hs
    | cons y s => simp
  have htails : symbols.all fun t => t.tail.all fun y =>
      isOpening y → (y = '+' ∧ t = ['+', '+']) ∨ (y = '-' ∧ t = ['-', '-']) := by decide
  have htail := List.all_eq_true.mp (List.all_eq_true.mp htails t ht) x hmem
  rcases of_decide_eq_true htail hx with ⟨rfl, rfl⟩ | ⟨rfl, rfl⟩
  · exact hplus rfl (eq_of_prefix_append hs hprefix)
  · exact hminus rfl (eq_of_prefix_append hs hprefix)

/-- An exponent as a number may have it. -/
def IsExponent (w : List Char) : Prop :=
  ∃ e s ds, w = e :: (s ++ ds) ∧ (e = 'e' ∨ e = 'E') ∧ (s = [] ∨ s = ['+'] ∨ s = ['-']) ∧
    ds ≠ [] ∧ ∀ x ∈ ds, Char.isDigit x

/-- The parts of a number. Letters behind a whole number start with none that an exponent could
start with. -/
structure Numeric (whole part power letters : List Char) : Prop where
  ofWhole : ∀ x ∈ whole, isDigitOrMark x
  ofPart : part = [] ∨ ∃ d ds, part = '.' :: d :: ds ∧ d.isDigit ∧ ∀ x ∈ ds, isDigitOrMark x
  ofPower : power = [] ∨ IsExponent power
  ofLetters : ∀ x ∈ letters, isWordChar x
  ofLetters_head : ∀ x ∈ letters.head?, ¬ isDigitOrMark x ∧ x ≠ 'e' ∧ x ≠ 'E'

theorem isWordChar_of_isDigitOrMark {x : Char} (h : isDigitOrMark x) : isWordChar x := by
  simp only [isDigitOrMark, Bool.or_eq_true] at h
  rcases h with h | h <;> simp [isWordChar, Char.isAlphanum, h]

theorem fraction_of_head {cs : List Char} (h : ∀ x ∈ cs.head?, x ≠ '.') : fraction cs = [] := by
  unfold fraction
  split
  · exact absurd rfl (h '.' rfl)
  · rfl

theorem sign_of_head {cs : List Char} (h : ∀ x ∈ cs.head?, x ≠ '+' ∧ x ≠ '-') : sign cs = [] := by
  cases cs with
  | nil => rfl
  | cons x cs => exact if_neg (not_or.mpr (h x rfl))

theorem exponent_of_head {cs : List Char} (h : ∀ x ∈ cs.head?, x ≠ 'e' ∧ x ≠ 'E') :
    exponent cs = [] := by
  cases cs with
  | nil => rfl
  | cons x cs => exact if_neg fun hx => not_or.mpr (h x rfl) hx.1

/-- The digits of an exponent stop where no digit follows. -/
theorem exponent_append {w rest : List Char} (hw : IsExponent w)
    (hrest : ∀ x ∈ rest.head?, ¬ Char.isDigit x) : exponent (w ++ rest) = w := by
  obtain ⟨e, s, ds, rfl, he, hs, hne, hds⟩ := hw
  have hdigits := takeWhile_append_of_head hds hrest
  have hsign : sign (s ++ (ds ++ rest)) = s := by
    rcases hs with rfl | rfl | rfl
    · refine sign_of_head ?_
      intro x hx
      obtain ⟨d, ds, rfl⟩ := List.exists_cons_of_ne_nil hne
      obtain rfl : d = x := by simpa using hx
      have hd := hds d List.mem_cons_self
      constructor <;> rintro rfl <;> exact absurd hd (by decide)
    · rfl
    · rfl
  rw [List.cons_append, List.append_assoc, exponent]
  simp only [hsign, List.drop_left, hdigits]
  rw [if_pos ⟨he, hne⟩]

namespace Numeric

variable {whole part power letters view : List Char}

theorem head_letters (h : Numeric whole part power letters) (hview : OffWord view) :
    ∀ x ∈ (letters ++ view).head?, ¬ isDigitOrMark x ∧ x ≠ 'e' ∧ x ≠ 'E' := by
  cases letters with
  | cons x letters => exact h.ofLetters_head
  | nil =>
    intro x hx
    have hword := hview x hx
    refine ⟨fun hmark => hword (isWordChar_of_isDigitOrMark hmark), ?_, ?_⟩ <;> rintro rfl <;>
      exact hword (by decide)

theorem exponent_eq (h : Numeric whole part power letters) (hview : OffWord view) :
    exponent (power ++ (letters ++ view)) = power := by
  have hhead := h.head_letters hview
  rcases h.ofPower with rfl | hpower
  · exact exponent_of_head fun x hx => (hhead x hx).2
  · refine exponent_append hpower fun x hx hdigit => (hhead x hx).1 ?_
    simp [isDigitOrMark, hdigit]

theorem head_power (h : Numeric whole part power letters) (hview : OffWord view) :
    ∀ x ∈ (power ++ (letters ++ view)).head?, ¬ isDigitOrMark x := by
  rcases h.ofPower with rfl | ⟨e, s, ds, rfl, he, -⟩
  · exact fun x hx => (h.head_letters hview x hx).1
  · intro x hx
    obtain rfl : e = x := by simpa using hx
    rcases he with rfl | rfl <;> decide

theorem fraction_eq (h : Numeric whole part power letters) (hview : OffWord view)
    (hfraction : fraction view = []) : fraction (part ++ (power ++ (letters ++ view))) = part := by
  rcases h.ofPart with rfl | ⟨d, ds, rfl, hd, hds⟩
  · -- Without a fraction of its own, only what follows the whole number could be taken for one.
    cases power with
    | cons e power =>
      refine fraction_of_head ?_
      rcases h.ofPower with hnil | ⟨e', s, ds, heq, he, -⟩
      · cases hnil
      · obtain ⟨rfl, -⟩ := List.cons.inj heq
        intro x hx
        obtain rfl : e = x := by simpa using hx
        rcases he with rfl | rfl <;> decide
    | nil =>
      cases letters with
      | nil => exact hfraction
      | cons x letters =>
        refine fraction_of_head ?_
        intro y hy
        obtain rfl : x = y := by simpa using hy
        rintro rfl
        exact absurd (h.ofLetters '.' List.mem_cons_self) (by decide)
  · have htake := takeWhile_append_of_head hds (h.head_power hview)
    rw [List.cons_append, List.cons_append, fraction, if_pos hd, htake]

theorem head_part (h : Numeric whole part power letters) (hview : OffWord view) :
    ∀ x ∈ (part ++ (power ++ (letters ++ view))).head?, ¬ isDigitOrMark x := by
  rcases h.ofPart with rfl | ⟨d, ds, rfl, -⟩
  · exact h.head_power hview
  · intro x hx
    obtain rfl : '.' = x := by simpa using hx
    decide

theorem number_eq (h : Numeric whole part power letters) (hview : OffWord view)
    (hfraction : fraction view = []) :
    number (whole ++ (part ++ (power ++ (letters ++ view)))) =
      whole ++ (part ++ (power ++ letters)) := by
  have hwhole := takeWhile_append_of_head h.ofWhole (h.head_part hview)
  have hletters := takeWhile_append_of_head h.ofLetters hview
  simp only [number, hwhole, List.drop_left, h.fraction_eq hview hfraction, h.exponent_eq hview,
    hletters]

end Numeric

end QuovaKotlin.Lexical

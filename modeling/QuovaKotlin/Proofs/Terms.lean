import QuovaKotlin.Proofs.Lexemes
import QuovaKotlin.Source.Grammar

/-!
# Identifiers and numbers are lexemes

The text that the grammar reads as an identifier or as a numeric literal is what the scanner takes
as one lexeme, as long as no part of a word follows and no fraction.
-/

set_option autoImplicit false

namespace QuovaKotlin.Peg.Pattern

variable {ρ : Type} {named : ρ → List Char → Prop}

/-- Every character of every text of a pattern satisfies `q`. -/
def Over (q : Char → Bool) : Pattern ρ → Prop
  | .text chars => ∀ x ∈ chars, q x
  | .char cls => ∀ x, cls.accepts x → q x
  | .start | .stop | .ahead _ | .absent _ => True
  | .rule _ => False
  | .seq p r | .choice p r => p.Over q ∧ r.Over q
  | .star p | .more p | .optional p => p.Over q

theorem Spells.over {q : Char → Bool} {p : Pattern ρ} {w : List Char} (h : p.Spells named w)
    (hp : p.Over q) : ∀ x ∈ w, q x := by
  induction p generalizing w with
  | text chars =>
    obtain rfl : w = chars := h
    exact hp
  | char cls =>
    obtain ⟨y, rfl, hy⟩ := h
    intro x hx
    obtain rfl := List.mem_singleton.mp hx
    exact hp x hy
  | start | stop | ahead | absent =>
    obtain rfl : w = [] := h
    simp
  | rule => exact hp.elim
  | seq p r ihp ihr =>
    obtain ⟨u, v, rfl, hu, hv⟩ := h
    intro x hx
    rcases List.mem_append.mp hx with hx | hx
    · exact ihp hu hp.1 x hx
    · exact ihr hv hp.2 x hx
  | choice p r ihp ihr =>
    rcases h with h | h
    · exact ihp h hp.1
    · exact ihr h hp.2
  | star p ih | more p ih =>
    obtain ⟨ws, rfl, hws⟩ := h
    intro x hx
    obtain ⟨u, hu, hx⟩ := List.mem_flatten.mp hx
    exact ih (hws u hu) hp x hx
  | optional p ih =>
    rcases h with rfl | h
    · simp
    · exact ih h hp

theorem over_lit {q : Char → Bool} {s : String} (h : s.toList.all q) :
    (lit s : Pattern ρ).Over q :=
  List.all_eq_true.mp h

end QuovaKotlin.Peg.Pattern

namespace QuovaKotlin.Lexical

open Peg Source
open Peg.Pattern (over_lit)

/-- A text that is scanned as one lexeme, like a word or a number. -/
structure IsTerm (w : List Char) : Prop where
  head : ∃ x u, w = x :: u ∧ isWordChar x
  lexeme_eq {view : List Char} : OffWord view → fraction view = [] → lexeme (w ++ view) = w

theorem isWordChar_of_alphanumeric {x : Char} (h : CharClass.alphanumeric.accepts x) :
    isWordChar x := by
  change x.isAlphanum at h
  simp [isWordChar, h]

theorem isWordChar_of_letter {x : Char} (h : CharClass.letter.accepts x) : isWordChar x := by
  change x.isAlpha at h
  simp [isWordChar, Char.isAlphanum, h]

theorem isWordChar_of_isDigit {x : Char} (h : x.isDigit) : isWordChar x := by
  simp [isWordChar, Char.isAlphanum, h]

theorem isUpper_iff {x : Char} :
    x.isUpper ↔ 'A'.val.toNat ≤ x.val.toNat ∧ x.val.toNat ≤ 'Z'.val.toNat := by
  change decide ('A'.val ≤ x.val ∧ x.val ≤ 'Z'.val) = true ↔ _
  rw [decide_eq_true_eq, UInt32.le_iff_toNat_le, UInt32.le_iff_toNat_le]

theorem isLower_iff {x : Char} :
    x.isLower ↔ 'a'.val.toNat ≤ x.val.toNat ∧ x.val.toNat ≤ 'z'.val.toNat := by
  change (decide ('a'.val ≤ x.val) && decide (x.val ≤ 'z'.val)) = true ↔ _
  rw [Bool.and_eq_true, decide_eq_true_eq, decide_eq_true_eq, UInt32.le_iff_toNat_le,
    UInt32.le_iff_toNat_le]

theorem isAlpha_iff {x : Char} : x.isAlpha ↔ x.isUpper ∨ x.isLower := by
  change (x.isUpper || x.isLower) = true ↔ _
  rw [Bool.or_eq_true]

theorem isWordChar_of_hexDigit {x : Char} (h : CharClass.hexDigit.accepts x) : isWordChar x := by
  simp only [CharClass.accepts, Char.isDigit, Bool.or_eq_true, Bool.and_eq_true,
    decide_eq_true_eq, Char.le_def, UInt32.le_iff_toNat_le, ge_iff_le] at h
  simp only [isWordChar, Char.isAlphanum, isAlpha_iff, isUpper_iff, isLower_iff, Char.isDigit,
    Bool.or_eq_true, Bool.and_eq_true, decide_eq_true_eq, UInt32.le_iff_toNat_le, ge_iff_le]
  have hf : 'f'.val.toNat ≤ 'z'.val.toNat := by decide
  have hF : 'F'.val.toNat ≤ 'Z'.val.toNat := by decide
  omega

theorem not_isDigit_of_letter {x : Char} (h : CharClass.letter.accepts x) : ¬ x.isDigit := by
  change x.isAlpha at h
  simp only [isAlpha_iff, isUpper_iff, isLower_iff] at h
  simp only [Char.isDigit, Bool.and_eq_true, decide_eq_true_eq, UInt32.le_iff_toNat_le, ge_iff_le]
  have hA : '9'.val.toNat < 'A'.val.toNat := by decide
  have ha : '9'.val.toNat < 'a'.val.toNat := by decide
  omega

theorem isTerm_word {x : Char} {w : List Char} (hx : ¬ x.isDigit)
    (hw : (x :: w).all isWordChar) : IsTerm (x :: w) where
  head := ⟨x, w, rfl, List.all_eq_true.mp hw x List.mem_cons_self⟩
  lexeme_eq hview _ := lexeme_word hx (List.all_eq_true.mp hw) hview

/-- An identifier is a word that does not start like a number. -/
theorem word_of_simpleIdentifier {w : List Char} (h : grammar.Reads .simpleIdentifier w) :
    ∃ x u, w = x :: u ∧ ¬ x.isDigit ∧ (x :: u).all isWordChar := by
  obtain ⟨_, _, rfl, rfl, u, v, rfl, hu, hv⟩ := h.spells
  have hrest : ∀ x ∈ v, isWordChar x :=
    hv.over ⟨fun _ => isWordChar_of_alphanumeric, over_lit (by decide), over_lit (by decide)⟩
  have hfirst : ∃ x, u = [x] ∧ ¬ x.isDigit ∧ isWordChar x := by
    rcases hu with ⟨x, rfl, hx⟩ | rfl | rfl
    · exact ⟨x, rfl, not_isDigit_of_letter hx, isWordChar_of_letter hx⟩
    · exact ⟨'_', rfl, by decide, by decide⟩
    · exact ⟨'$', rfl, by decide, by decide⟩
  obtain ⟨x, rfl, hdigit, hx⟩ := hfirst
  exact ⟨x, v, rfl, hdigit, List.all_eq_true.mpr (List.forall_mem_cons.mpr ⟨hx, hrest⟩)⟩

theorem isTerm_simpleIdentifier {w : List Char} (h : grammar.Reads .simpleIdentifier w) :
    IsTerm w := by
  obtain ⟨x, u, rfl, hx, hword⟩ := word_of_simpleIdentifier h
  exact isTerm_word hx hword

theorem isTerm_of_numeric {d : Char} {ds part power letters : List Char}
    (h : Numeric (d :: ds) part power letters) (hd : d.isDigit) :
    IsTerm (d :: ds ++ (part ++ (power ++ letters))) where
  head := ⟨d, _, rfl, isWordChar_of_isDigit hd⟩
  lexeme_eq {view} hview hfraction := by
    have hnumber := h.number_eq hview hfraction
    have happend : d :: ds ++ (part ++ (power ++ letters)) ++ view =
        d :: ds ++ (part ++ (power ++ (letters ++ view))) := by simp
    rw [happend, List.cons_append, lexeme, if_pos hd, ← List.cons_append, hnumber]

theorem isDigitOrMark_of_isDigit {x : Char} (h : x.isDigit) : isDigitOrMark x := by
  simp [isDigitOrMark, h]

/-- What digits are made of. -/
structure IsDigits (w : List Char) : Prop where
  head : ∃ d ds, w = d :: ds ∧ d.isDigit
  marks : ∀ x ∈ w, isDigitOrMark x

/-- An integer in front of its suffix: digits, and letters for another base than ten. -/
def IsInteger (w : List Char) : Prop :=
  ∃ whole letters, w = whole ++ letters ∧ IsDigits whole ∧ (∀ x ∈ letters, isWordChar x) ∧
    ∀ x ∈ letters.head?, ¬ isDigitOrMark x ∧ x ≠ 'e' ∧ x ≠ 'E'

section Spelling

variable {named : Rule → List Char → Prop} {w : List Char}

theorem isDigits_of_spells (h : Grammar.digits.Spells named w) : IsDigits w := by
  have hmarks : ∀ x ∈ w, isDigitOrMark x :=
    h.over ⟨fun _ => isDigitOrMark_of_isDigit, fun _ => isDigitOrMark_of_isDigit,
      over_lit (by decide)⟩
  obtain ⟨_, v, rfl, ⟨d, rfl, hd⟩, -⟩ := h
  exact ⟨⟨d, v, rfl, hd⟩, hmarks⟩

theorem isExponent_of_spells (h : Grammar.exponent.Spells named w) : IsExponent w := by
  obtain ⟨_, _, rfl, hmark, s, ds, rfl, hs, hds⟩ := h
  have hdigits : ∀ x ∈ ds, Char.isDigit x := hds.over ⟨fun _ hx => hx, fun _ hx => hx⟩
  obtain ⟨_, v, rfl, ⟨d, rfl, -⟩, -⟩ := hds
  have hsign : s = [] ∨ s = ['+'] ∨ s = ['-'] := hs
  rcases hmark with rfl | rfl
  · exact ⟨'e', s, _, rfl, .inl rfl, hsign, by simp, hdigits⟩
  · exact ⟨'E', s, _, rfl, .inr rfl, hsign, by simp, hdigits⟩

theorem isInteger_of_spells (h : Grammar.integerBody.Spells named w) : IsInteger w := by
  have hzero : IsDigits ['0'] :=
    ⟨⟨'0', [], rfl, by decide⟩, List.forall_mem_singleton.mpr (by decide)⟩
  have hword : Grammar.integerBody.Over isWordChar := by
    refine ⟨⟨⟨over_lit (by decide), over_lit (by decide)⟩, fun _ => isWordChar_of_hexDigit,
      fun _ => isWordChar_of_hexDigit, over_lit (by decide)⟩, ⟨⟨over_lit (by decide),
      over_lit (by decide)⟩, ⟨over_lit (by decide), over_lit (by decide)⟩, over_lit (by decide),
      over_lit (by decide), over_lit (by decide)⟩, fun _ => isWordChar_of_isDigit,
      fun _ => isWordChar_of_isDigit, over_lit (by decide)⟩
  have hall := h.over hword
  -- The mark of another base stands behind a zero; it is no digit and starts no exponent.
  have hmarks : ∀ mark ∈ ['x', 'X', 'b', 'B'],
      ¬ isDigitOrMark mark ∧ mark ≠ 'e' ∧ mark ≠ 'E' := by
    intro mark hmark
    simp only [List.mem_cons, List.not_mem_nil, or_false] at hmark
    rcases hmark with rfl | rfl | rfl | rfl <;> decide
  have hbase : ∀ mark ∈ ['x', 'X', 'b', 'B'], ∀ v, w = '0' :: mark :: v → IsInteger w := by
    rintro mark hmark v rfl
    refine ⟨['0'], mark :: v, rfl, hzero, fun x hx => hall x (List.mem_cons_of_mem _ hx), ?_⟩
    intro x hx
    obtain rfl : mark = x := by simpa using hx
    exact hmarks mark hmark
  rcases h with ⟨_, v, rfl, hmark, -⟩ | ⟨_, v, rfl, hmark, -⟩ | h
  · rcases hmark with rfl | rfl
    · exact hbase 'x' (by decide) v rfl
    · exact hbase 'X' (by decide) v rfl
  · rcases hmark with rfl | rfl
    · exact hbase 'b' (by decide) v rfl
    · exact hbase 'B' (by decide) v rfl
  · exact ⟨w, [], by simp, isDigits_of_spells h, by simp, by simp⟩

end Spelling

theorem isTerm_of_isInteger {w suffix : List Char} (h : IsInteger w)
    (hsuffix : ∀ x ∈ suffix, isWordChar x ∧ ¬ isDigitOrMark x ∧ x ≠ 'e' ∧ x ≠ 'E') :
    IsTerm (w ++ suffix) := by
  obtain ⟨_, letters, rfl, ⟨⟨d, ds, rfl, hd⟩, hmarks⟩, hword, hhead⟩ := h
  have hnumeric : Numeric (d :: ds) [] [] (letters ++ suffix) := by
    refine ⟨hmarks, .inl rfl, .inl rfl, ?_, ?_⟩
    · intro x hx
      rcases List.mem_append.mp hx with hx | hx
      · exact hword x hx
      · exact (hsuffix x hx).1
    · cases letters with
      | nil => exact fun x hx => (hsuffix x (List.mem_of_mem_head? hx)).2
      | cons y letters => exact hhead
  rw [List.append_assoc]
  exact isTerm_of_numeric hnumeric hd

theorem isTerm_integerLiteral {w : List Char} (h : grammar.Reads .integerLiteral w) :
    IsTerm w := by
  obtain ⟨u, _, rfl, hu, s, _, rfl, hs, rfl⟩ := h.spells
  have hsuffix : s = [] ∨ s = ['u'] ∨ s = ['U'] := hs
  rw [List.append_nil]
  rcases hsuffix with rfl | rfl | rfl
  · exact isTerm_of_isInteger (isInteger_of_spells hu) (by simp)
  · exact isTerm_of_isInteger (isInteger_of_spells hu) (List.forall_mem_singleton.mpr (by decide))
  · exact isTerm_of_isInteger (isInteger_of_spells hu) (List.forall_mem_singleton.mpr (by decide))

theorem isTerm_longLiteral {w : List Char} (h : grammar.Reads .longLiteral w) : IsTerm w := by
  obtain ⟨u, _, rfl, hu, _, _, rfl, rfl, rfl⟩ := h.spells
  exact isTerm_of_isInteger (isInteger_of_spells hu) (List.forall_mem_singleton.mpr (by decide))

theorem isTerm_of_real {whole part power suffix : List Char} (hwhole : IsDigits whole)
    (hpart : part = [] ∨ ∃ fraction, part = '.' :: fraction ∧ IsDigits fraction)
    (hpower : power = [] ∨ IsExponent power)
    (hsuffix : suffix = [] ∨ suffix = ['f'] ∨ suffix = ['F']) :
    IsTerm (whole ++ (part ++ (power ++ suffix))) := by
  obtain ⟨⟨d, ds, rfl, hd⟩, hmarks⟩ := hwhole
  have hletters : ∀ x ∈ suffix, isWordChar x ∧ ¬ isDigitOrMark x ∧ x ≠ 'e' ∧ x ≠ 'E' := by
    rcases hsuffix with rfl | rfl | rfl
    · simp
    · exact List.forall_mem_singleton.mpr (by decide)
    · exact List.forall_mem_singleton.mpr (by decide)
  refine isTerm_of_numeric ⟨hmarks, ?_, hpower, fun x hx => (hletters x hx).1,
    fun x hx => (hletters x (List.mem_of_mem_head? hx)).2⟩ hd
  rcases hpart with rfl | ⟨fraction, rfl, ⟨d', ds', rfl, hd'⟩, hmarks'⟩
  · exact .inl rfl
  · exact .inr ⟨d', ds', rfl, hd', fun x hx => hmarks' x (List.mem_cons_of_mem _ hx)⟩

/-- A real number has a fraction, an exponent or a suffix. -/
theorem isTerm_realLiteral {w : List Char} (h : grammar.Reads .realLiteral w) : IsTerm w := by
  obtain ⟨u, _, rfl, hu, rfl⟩ := h.spells
  rw [List.append_nil]
  rcases hu with ⟨a, _, rfl, ha, _, _, rfl, rfl, b, _, rfl, hb, p, s, rfl, hp, hs⟩ |
    ⟨a, _, rfl, ha, p, s, rfl, hp, hs⟩ | ⟨a, s, rfl, ha, hs⟩
  · have hterm : IsTerm (a ++ ('.' :: b ++ (p ++ s))) :=
      isTerm_of_real (isDigits_of_spells ha) (.inr ⟨b, rfl, isDigits_of_spells hb⟩)
        (hp.imp id isExponent_of_spells) hs
    exact hterm
  · exact isTerm_of_real (isDigits_of_spells ha) (.inl rfl) (.inr (isExponent_of_spells hp)) hs
  · exact isTerm_of_real (isDigits_of_spells ha) (.inl rfl) (.inl rfl) (.inr hs)

end QuovaKotlin.Lexical

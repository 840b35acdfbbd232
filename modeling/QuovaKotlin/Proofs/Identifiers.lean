import QuovaKotlin.Proofs.Lookahead
import QuovaKotlin.Proofs.Termination

/-!
# Identifiers are the words that are not reserved

The rule of identifiers looks for a reserved word first, and the choice between reserved words stops
at the first that the text goes on with. So the order of the words matters where one starts with
another one, as `interface` starts with `int` and `in`. In the order of the grammar the rule refuses
every reserved word, and takes every other word to its end.
-/

set_option autoImplicit false

namespace QuovaKotlin.Source

open Peg Peg.Grammar Lexical

/-- The rule matches at the start of the text, and its match is the whole text. -/
def MatchesWhole (r : Rule) (text : String) : Prop :=
  ∃ tree, grammar.parse r text = .ok tree ∧ tree.span = ⟨0, text.toList.length⟩

/-- A letter, `_` or `$`, then letters, digits, `_` and `$`. -/
def IsWord (w : List Char) : Prop :=
  ∃ x rest, w = x :: rest ∧ isWordStart x ∧ ∀ y ∈ rest, isWordChar y

theorem isName_iff_isWord {w : List Char} : isName w ↔ IsWord w ∧ w ∉ keywords := by
  rw [isName_iff]
  constructor
  · rintro ⟨x, rest, hw, hx, hrest, hfree⟩
    exact ⟨⟨x, rest, hw, hx, hrest⟩, hfree⟩
  · rintro ⟨⟨x, rest, hw, hx, hrest⟩, hfree⟩
    exact ⟨x, rest, hw, hx, hrest, hfree⟩

theorem IsWord.forall_isWordChar {w : List Char} (h : IsWord w) : ∀ x ∈ w, isWordChar x := by
  obtain ⟨x, rest, rfl, hx, hrest⟩ := h
  exact List.forall_mem_cons.mpr ⟨isWordChar_of_isWordStart hx, hrest⟩

theorem IsWord.append {w v : List Char} (h : IsWord w) (hv : ∀ x ∈ v, isWordChar x) :
    IsWord (w ++ v) := by
  obtain ⟨x, rest, rfl, hx, hrest⟩ := h
  refine ⟨x, rest ++ v, rfl, hx, fun y hy => ?_⟩
  rcases List.mem_append.mp hy with hy | hy
  · exact hrest y hy
  · exact hv y hy

theorem isWord_of_mem_keywords {w : List Char} (h : w ∈ keywords) : IsWord w := by
  have hall : keywords.all fun w => w.head?.any isWordStart && w.all isWordChar := by
    decide +kernel
  obtain ⟨hhead, hchars⟩ := Bool.and_eq_true_iff.mp (List.all_eq_true.mp hall w h)
  cases w with
  | nil => cases hhead
  | cons x rest =>
    exact ⟨x, rest, rfl, hhead, (List.forall_mem_cons.mp (List.all_eq_true.mp hchars)).2⟩

/-- What the rule accepts is a name, with nothing of a word behind it. -/
theorem name_of_accepts {text : String} {tree : Reading.Node}
    (h : grammar.Accepts .simpleIdentifier text tree) :
    ∃ u rest, text.toList = u ++ rest ∧ isName u ∧ OffWord rest ∧ tree.span = ⟨0, u.length⟩ := by
  obtain ⟨d, h⟩ := h
  obtain ⟨u, hname, hpasses, hoff⟩ := name_of_evaluates h
  obtain ⟨_, _, rfl, -⟩ := token_of_rule rfl h
  have hindex := hpasses.index_eq
  rw [Nat.zero_add] at hindex
  exact ⟨u, d.rest, hpasses.rest_eq, hname, hoff, by rw [← hindex]; rfl⟩

theorem accepts_of_isName {text : String} (h : isName text.toList) :
    ∃ tree, grammar.parse .simpleIdentifier text = .ok tree ∧
      grammar.Accepts .simpleIdentifier text tree := by
  have hpasses : Cursor.Passes ⟨0, text.toList⟩ text.toList ⟨text.toList.length, []⟩ :=
    Cursor.passes_all text.toList
  obtain ⟨ts, heval⟩ := evaluates_name (m := {}) h hpasses nofun
  rcases grammar_decides .simpleIdentifier text with haccepts | ⟨-, hrefuses⟩
  · exact haccepts
  · cases heval.unique hrefuses

/-- A word goes on to the end of the text, if nothing else stands in it. -/
theorem eq_nil_of_offWord {u rest : List Char} (hword : ∀ x ∈ u ++ rest, isWordChar x)
    (hoff : OffWord rest) : rest = [] := by
  cases rest with
  | nil => rfl
  | cons x rest => exact absurd (hword x (by simp)) (hoff x rfl)

theorem matchesWhole_iff_isName {text : String} :
    MatchesWhole .simpleIdentifier text ↔ isName text.toList := by
  constructor
  · rintro ⟨tree, hparse, hspan⟩
    rcases grammar_decides .simpleIdentifier text with ⟨tree', hparse', haccepts⟩ | ⟨⟨t, herror⟩, -⟩
    · obtain rfl : tree = tree' := Except.ok.inj (hparse.symm.trans hparse')
      obtain ⟨u, rest, htext, hname, -, hspan'⟩ := name_of_accepts haccepts
      -- the match is as long as the text, so nothing is left behind it
      have hlength : u.length = text.toList.length :=
        congrArg Span.stop (hspan'.symm.trans hspan)
      rw [htext, List.length_append] at hlength
      obtain rfl : rest = [] := List.eq_nil_of_length_eq_zero (by omega)
      rwa [htext, List.append_nil]
    · rw [hparse] at herror
      cases herror
  · intro hname
    obtain ⟨tree, hparse, haccepts⟩ := accepts_of_isName hname
    obtain ⟨u, rest, htext, -, hoff, hspan⟩ := name_of_accepts haccepts
    obtain rfl : rest = [] := eq_nil_of_offWord (htext ▸ isName_word hname) hoff
    rw [List.append_nil] at htext
    exact ⟨tree, hparse, htext ▸ hspan⟩

theorem refused_of_mem_keywords {text : String} (h : text.toList ∈ keywords) :
    ∃ t, grammar.parse .simpleIdentifier text = .error t := by
  rcases grammar_decides .simpleIdentifier text with ⟨tree, -, haccepts⟩ | ⟨hrefused, -⟩
  · obtain ⟨u, rest, htext, hname, hoff, -⟩ := name_of_accepts haccepts
    have hword := (isWord_of_mem_keywords h).forall_isWordChar
    obtain rfl : rest = [] := eq_nil_of_offWord (htext ▸ hword) hoff
    rw [htext, List.append_nil] at h
    exact absurd h (isName_iff_isWord.mp hname).2
  · exact hrefused

/-- The rule of identifiers matches the whole of a text exactly if the text has the form of a word
and is not reserved. At a reserved word it does not match at all, and a word that goes on behind a
reserved one is an identifier like any other, unless it is reserved itself. -/
theorem identifiers_are_unreserved_words (text : String) :
    (MatchesWhole .simpleIdentifier text ↔ IsWord text.toList ∧ text.toList ∉ keywords) ∧
    (text.toList ∈ keywords → ∃ t, grammar.parse .simpleIdentifier text = .error t) ∧
    ∀ reserved ∈ keywords, ∀ behind : List Char, text.toList = reserved ++ behind →
      (∀ x ∈ behind, isWordChar x) → text.toList ∉ keywords →
      MatchesWhole .simpleIdentifier text := by
  have hiff := matchesWhole_iff_isName.trans (isName_iff_isWord (w := text.toList))
  refine ⟨hiff, refused_of_mem_keywords, fun reserved hmem behind htext hbehind hfree => ?_⟩
  have hword : IsWord text.toList := htext ▸ (isWord_of_mem_keywords hmem).append hbehind
  exact hiff.mpr ⟨hword, hfree⟩

/-- `internals` starts with three reserved words and is none; `interface` is one. -/
theorem internals_matches_interface_refused :
    MatchesWhole .simpleIdentifier "internals" ∧
      ∃ t, grammar.parse .simpleIdentifier "interface" = .error t := by
  obtain ⟨-, -, hlonger⟩ := identifiers_are_unreserved_words "internals"
  obtain ⟨-, hrefused, -⟩ := identifiers_are_unreserved_words "interface"
  have hwords : "internal".toList ∈ keywords ∧ "internals".toList ∉ keywords ∧
      "interface".toList ∈ keywords := by decide +kernel
  refine ⟨hlonger _ hwords.1 ['s'] (by decide) ?_ hwords.2.1, hrefused hwords.2.2⟩
  exact List.forall_mem_singleton.mpr (by decide)

end QuovaKotlin.Source

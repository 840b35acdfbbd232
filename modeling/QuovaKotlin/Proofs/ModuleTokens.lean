import QuovaKotlin.Proofs.ModuleLexemes
import QuovaKotlin.Proofs.Steps
import QuovaKotlin.Text.Join

/-!
# Where the module grammar finds its tokens

What a word, a name, a version, a value or a raw text looks like, and that the grammar takes each of
them as one token, up to the first character that cannot belong to it. Words are read as a whole: a
name may start with a keyword as long as it goes on behind it.
-/

set_option autoImplicit false

namespace QuovaKotlin.Module

open Peg Peg.Grammar
open Peg.Pattern (all oneOf plus words newline anyExcept lit)
open Grammar (nameChar word)
open Lexical (isAlpha_iff isUpper_iff isLower_iff)

variable {m : Mode} {c d e : Cursor} {u w : List Char} {r : Rule}

/-- The characters of a name that stand in front. -/
def firstWord (rest : List Char) : List Char :=
  rest.takeWhile isNameChar

theorem firstWord_append (hu : u.all isNameChar) (rest : List Char) :
    firstWord (u ++ rest) = u ++ firstWord rest :=
  List.takeWhile_append_of_pos (List.all_eq_true.mp hu)

theorem firstWord_eq_nil {rest : List Char} (h : ∀ x ∈ rest.head?, ¬ isNameChar x) :
    firstWord rest = [] := by
  cases rest with
  | nil => rfl
  | cons x rest => exact List.takeWhile_cons_of_neg (h x rfl)

theorem prefix_firstWord {t rest : List Char} (ht : t.all isNameChar) (hstart : t <+: rest) :
    t <+: firstWord rest := by
  obtain ⟨s, rfl⟩ := hstart
  rw [firstWord_append ht]
  exact List.prefix_append t _

theorem evaluates_nameChar {x : Char} {index : Nat} {rest : List Char} (hx : isNameChar x) :
    Evaluates grammar m nameChar ⟨index, x :: rest⟩ (some ([], ⟨index + 1, rest⟩)) := by
  by_cases halpha : x.isAlphanum
  · exact .first (.char halpha)
  · have hno : Evaluates grammar m (.char .alphanumeric) ⟨index, x :: rest⟩ none := by
      refine .noChar fun y rest' hrest => ?_
      obtain ⟨rfl, -⟩ := List.cons.inj hrest
      exact halpha
    simp only [isNameChar, halpha, Bool.false_or, Bool.or_eq_true, beq_iff_eq] at hx
    refine .second hno ?_
    rcases hx with rfl | rfl
    · exact .first (.text (by simp [Cursor.strip?]))
    · exact .second (.noText (by simp [Cursor.strip?])) (.text (by simp [Cursor.strip?]))

theorem evaluates_noNameChar (h : firstWord c.rest = []) : Evaluates grammar m nameChar c none := by
  obtain ⟨index, rest⟩ := c
  have hhead : ∀ x ∈ rest.head?, ¬ isNameChar x := by
    cases rest with
    | nil => nofun
    | cons x rest =>
      rintro y ⟨⟩ hx
      rw [firstWord, List.takeWhile_cons_of_pos hx] at h
      cases h
  have hlit : ∀ x : Char, isNameChar x → Evaluates grammar m (.text [x]) ⟨index, rest⟩ none :=
    fun x hx => evaluates_noText fun heq => hhead x heq hx
  refine .second (.noChar fun x rest' hrest hx => ?_)
    (.second (hlit '_' (by decide)) (hlit '-' (by decide)))
  refine hhead x (by rw [show rest = x :: rest' from hrest]; rfl) ?_
  simp [isNameChar, show x.isAlphanum from hx]

/-- Texts that can be told apart as whole words. -/
structure IsVocabulary (texts : List String) : Prop where
  isWord : ∀ t ∈ texts, t.toList.all isNameChar
  eq_of_prefix : ∀ s ∈ texts, ∀ t ∈ texts, s.toList <+: t.toList → s = t

/-- A word alone is told from any other. -/
theorem isVocabulary_singleton {t : String} (ht : t.toList.all isNameChar) : IsVocabulary [t] := by
  refine ⟨by simpa using ht, ?_⟩
  intro s hs s' hs' _
  rw [List.mem_singleton.mp hs, List.mem_singleton.mp hs']

/-- One of the texts is matched, unless none of them stands there. -/
theorem evaluates_words (m : Mode) (texts : List String) (c : Cursor) :
    (∃ t ∈ texts, ∃ d, c.Passes t.toList d ∧ Evaluates grammar m (words texts) c (some ([], d))) ∨
      (∀ t ∈ texts, ¬ t.toList <+: c.rest) ∧ Evaluates grammar m (words texts) c none := by
  induction texts with
  | nil => exact .inr ⟨nofun, .noAbsent (.text rfl)⟩
  | cons t texts ih =>
    by_cases ht : t.toList <+: c.rest
    · obtain ⟨d, hd⟩ := Grammar.Cursor.strip?_of_prefix ht
      refine .inl ⟨t, List.mem_cons_self, d, Cursor.strip?_passes hd, ?_⟩
      cases texts with
      | nil => exact .text hd
      | cons => exact .first (.text hd)
    · have hnone : Evaluates grammar m (lit t) c none := by
        refine .noText (Option.eq_none_iff_forall_ne_some.mpr fun d hd => ht ?_)
        exact ⟨d.rest, (Cursor.strip?_passes hd).rest_eq.symm⟩
      rcases ih with ⟨t', ht', d, hpasses, h⟩ | ⟨hothers, h⟩
      · refine .inl ⟨t', List.mem_cons_of_mem t ht', d, hpasses, ?_⟩
        cases texts with
        | nil => cases ht'
        | cons => exact .second hnone h
      · refine .inr ⟨List.forall_mem_cons.mpr ⟨ht, hothers⟩, ?_⟩
        cases texts with
        | nil => exact hnone
        | cons => exact .second hnone h

section

variable {texts : List String} (htexts : IsVocabulary texts) (hm : m.kind ≠ .normal)

include htexts hm

theorem evaluates_word {t : String} (ht : t ∈ texts) (hpasses : c.Passes t.toList d)
    (hoff : firstWord d.rest = []) : Evaluates grammar m (word texts) c (some ([], d)) := by
  rcases evaluates_words m texts c with ⟨t', ht', d', hpasses', h⟩ | ⟨hnone, -⟩
  · have hprefix := prefix_firstWord (htexts.isWord t' ht') ⟨d'.rest, hpasses'.rest_eq.symm⟩
    rw [hpasses.rest_eq, firstWord_append (htexts.isWord t ht), hoff, List.append_nil] at hprefix
    obtain rfl := htexts.eq_of_prefix t' ht' t ht hprefix
    obtain rfl : d' = d :=
      Option.some.inj ((strip?_of_passes hpasses').symm.trans (strip?_of_passes hpasses))
    exact seq_of_kind hm h (.absent (evaluates_noNameChar hoff))
  · exact absurd ⟨d.rest, hpasses.rest_eq.symm⟩ (hnone t ht)

/-- A word that goes on behind a text is not that text. -/
theorem evaluates_noWord (h : firstWord c.rest ∉ texts.map String.toList) :
    Evaluates grammar m (word texts) c none := by
  rcases evaluates_words m texts c with ⟨t, ht, d, hpasses, hsome⟩ | ⟨-, hnone⟩
  · refine .noSecond hsome ?_
    rw [between_of_kind hm]
    rw [hpasses.rest_eq, firstWord_append (htexts.isWord t ht)] at h
    obtain ⟨index, rest⟩ := d
    cases rest with
    | nil =>
      rw [show firstWord (Cursor.rest ⟨index, []⟩) = [] from rfl, List.append_nil] at h
      exact absurd (List.mem_map_of_mem ht) h
    | cons x rest =>
      by_cases hx : isNameChar x
      · exact .noAbsent (evaluates_nameChar hx)
      · rw [show firstWord (Cursor.rest ⟨index, x :: rest⟩) = [] from
          List.takeWhile_cons_of_neg hx, List.append_nil] at h
        exact absurd (List.mem_map_of_mem ht) h
  · exact .noFirst hnone

end

/-- The rule takes a text as a token. -/
def Takes (m : Mode) (r : Rule) (text : String) (c d : Cursor) : Prop :=
  Evaluates grammar m (.rule r) c (some ([.token r ⟨c.index, d.index⟩ text], d))

theorem takes_of_body {text : String} (hkind : grammar.kind r = .atomic)
    (hm : m.keepsTrees) (hpasses : c.Passes text.toList d)
    (h : Evaluates grammar (grammar.modes m r).2 (grammar.body r) c (some ([], d))) :
    Takes m r text c d := by
  have htoken := h.token hkind hm hpasses
  rwa [String.ofList_toList] at htoken

section

variable {texts : List String} (htexts : IsVocabulary texts) (hkind : grammar.kind r = .atomic)
  (hbody : grammar.body r = word texts)

include htexts hkind hbody

theorem takes_word {t : String} (hm : m.keepsTrees) (ht : t ∈ texts) (hpasses : c.Passes t.toList d)
    (hoff : firstWord d.rest = []) : Takes m r t c d := by
  refine takes_of_body hkind hm hpasses ?_
  rw [hbody]
  exact evaluates_word htexts (modes_atomic hkind) ht hpasses hoff

theorem evaluates_noKeyword (h : firstWord c.rest ∉ texts.map String.toList) :
    Evaluates grammar m (.rule r) c none := by
  refine .noRule ?_
  rw [hbody]
  exact evaluates_noWord htexts (modes_atomic hkind) h

end

/-- The words that no name starts with. -/
def reserved : List String :=
  ["repositories", "dependencies", "project", "plugins", "version", "compile", "runtime", "group",
    "impl", "raw", "var"]

def IsWord (w : String) : Prop :=
  w ≠ "" ∧ w.toList.all isNameChar

/-- Words with dots between them, of which the first is not reserved. -/
def IsName (name : String) : Prop :=
  ∃ first others, name = Text.joinWith "." (first :: others) ∧ (∀ w ∈ first :: others, IsWord w) ∧
    first ∉ reserved

theorem isName_of_words (first : String) (others : List String)
    (h : (first :: others).all fun w => w ≠ "" && w.toList.all isNameChar)
    (hfree : first ∉ reserved) : IsName (Text.joinWith "." (first :: others)) := by
  refine ⟨first, others, rfl, fun w hw => ?_, hfree⟩
  simpa [IsWord] using List.all_eq_true.mp h w hw

theorem toList_joinWith_dots (first : String) (others : List String) :
    (Text.joinWith "." (first :: others)).toList =
      first.toList ++ (others.map fun w => '.' :: w.toList).flatten := by
  induction others generalizing first with
  | nil => simp [Text.joinWith]
  | cons w others ih => simp [Text.joinWith, ih w]

theorem IsWord.toList_ne_nil {w : String} (h : IsWord w) : w.toList ≠ [] := by
  intro hnil
  exact h.1 (String.toList_inj.mp hnil)

theorem reserved_isVocabulary : IsVocabulary reserved :=
  ⟨by decide +kernel, by decide +kernel⟩

theorem evaluates_nameChars (hm : m.kind ≠ .normal) {w : String} (hw : IsWord w)
    (hpasses : c.Passes w.toList d) (hoff : firstWord d.rest = []) :
    Evaluates grammar m (plus nameChar) c (some ([], d)) :=
  evaluates_plus_chars hm hw.toList_ne_nil
    (fun x hx _ _ => evaluates_nameChar (List.all_eq_true.mp hw.2 x hx)) hpasses
    (evaluates_noNameChar hoff)

/-- The first word of a name is its first component. -/
theorem firstWord_of_isName {name : String} {rest : List Char} (h : IsName name)
    (hoff : firstWord rest = []) :
    ∃ first : String, IsWord first ∧ first ∉ reserved ∧
      firstWord (name.toList ++ rest) = first.toList := by
  obtain ⟨first, others, rfl, hwords, hfree⟩ := h
  refine ⟨first, hwords first List.mem_cons_self, hfree, ?_⟩
  rw [toList_joinWith_dots, List.append_assoc,
    firstWord_append (hwords first List.mem_cons_self).2]
  cases others with
  | nil => simpa using hoff
  | cons w others => simp [firstWord, isNameChar]

theorem takes_name {name : String} (h : IsName name) (hpasses : c.Passes name.toList d)
    (hend : ∀ x ∈ d.rest.head?, ¬ isDottedChar x) : Takes {} .name name c d := by
  have hm : (grammar.modes {} .name).2.kind ≠ .normal := modes_atomic rfl
  have hoff : firstWord d.rest = [] :=
    firstWord_eq_nil fun x hx hname => hend x hx (by simp [isDottedChar, hname])
  obtain ⟨first', -, hfree', hfirst⟩ := firstWord_of_isName h hoff
  refine takes_of_body rfl rfl hpasses ?_
  obtain ⟨first, others, rfl, hwords, hfree⟩ := h
  rw [← hpasses.rest_eq] at hfirst
  have hkeyword : Evaluates grammar (grammar.modes {} .name).2 (.absent (.rule .keyword)) c
      (some ([], c)) := by
    refine .absent (evaluates_noKeyword reserved_isVocabulary rfl rfl ?_)
    rw [hfirst]
    intro hmem
    obtain ⟨t, ht, heq⟩ := List.mem_map.mp hmem
    exact hfree' (String.toList_inj.mp heq ▸ ht)
  rw [toList_joinWith_dots] at hpasses
  obtain ⟨e, hone, hrest⟩ := passes_split hpasses
  have hone' : Evaluates grammar (grammar.modes {} .name).2 (plus nameChar) c (some ([], e)) := by
    refine evaluates_nameChars hm (hwords first List.mem_cons_self) hone ?_
    rw [hrest.rest_eq]
    cases others with
    | nil => exact hoff
    | cons w others => rfl
  refine seq_of_kind hm hkeyword (seq_of_kind hm hone' ?_)
  refine evaluates_star_pieces (fun rest => firstWord rest = []) hm ?_ ?_ hrest hoff ?_
  · intro piece hpiece rest
    obtain ⟨w, -, rfl⟩ := List.mem_map.mp hpiece
    rfl
  · intro piece hpiece c d hpasses hoff
    obtain ⟨w, hw, rfl⟩ := List.mem_map.mp hpiece
    obtain ⟨e, hdot, hword⟩ := passes_split (u := ['.']) hpasses
    exact seq_of_kind hm (.text (strip?_of_passes hdot))
      (evaluates_nameChars hm (hwords w (List.mem_cons_of_mem first hw)) hword hoff)
  · exact .noFirst (evaluates_noText fun hdot => hend '.' hdot (by decide))

/-- A single character of a version, or a name in braces that stands for one. -/
def IsVersionPiece (piece : List Char) : Prop :=
  (∃ x, piece = [x] ∧ (isNameChar x ∨ x = '.' ∨ x = '+')) ∨
    ∃ w, IsWord w ∧ piece = ("$\x7b" ++ w ++ "\x7d").toList

def IsVersion (version : String) : Prop :=
  ∃ pieces, version.toList = pieces.flatten ∧ pieces ≠ [] ∧ ∀ piece ∈ pieces, IsVersionPiece piece

/-- A version without references. -/
theorem isVersion_of_chars {version : String} (hne : version.toList ≠ [])
    (h : version.toList.all fun x => isNameChar x || x == '.' || x == '+') : IsVersion version := by
  refine ⟨version.toList.map ([·]), ?_, by simpa using hne, ?_⟩
  · rw [← List.flatMap_def]
    exact (List.flatMap_singleton' _).symm
  · intro piece hpiece
    obtain ⟨x, hx, rfl⟩ := List.mem_map.mp hpiece
    refine .inl ⟨x, rfl, ?_⟩
    simpa [or_assoc] using List.all_eq_true.mp h x hx

/-- What the grammar repeats to read a version. -/
def versionPiece : Pattern Rule :=
  oneOf [all [lit "$\x7b", plus nameChar, lit "\x7d"], nameChar, lit ".", lit "+"]

theorem evaluates_versionPiece (hm : m.kind ≠ .normal) {piece : List Char}
    (h : IsVersionPiece piece) (hpasses : c.Passes piece d) :
    Evaluates grammar m versionPiece c (some ([], d)) := by
  rcases h with ⟨x, rfl, hx⟩ | ⟨w, hw, rfl⟩
  · obtain ⟨index, rest, rfl, hrest⟩ := hpasses.of_cons
    obtain rfl := hrest.eq_of_nil
    have hdollar : x ≠ '$' := by
      rintro rfl
      exact absurd hx (by decide)
    refine .second (.noFirst (evaluates_noText fun heq => hdollar (Option.some.inj heq))) ?_
    by_cases hname : isNameChar x
    · exact .first (evaluates_nameChar hname)
    · refine .second (evaluates_noNameChar (List.takeWhile_cons_of_neg hname)) ?_
      rcases hx with hx | rfl | rfl
      · exact absurd hx hname
      · exact .first (.text rfl)
      · exact .second (evaluates_noText (x := '.') (by simp)) (.text rfl)
  · rw [String.toList_append, String.toList_append] at hpasses
    obtain ⟨e, hfront, hclose⟩ := passes_split hpasses
    obtain ⟨b, hopen, hword⟩ := passes_split hfront
    have hoff : firstWord e.rest = [] := by
      rw [hclose.rest_eq]
      rfl
    exact .first (seq_of_kind hm (.text (strip?_of_passes hopen))
      (seq_of_kind hm (evaluates_nameChars hm hw hword hoff) (.text (strip?_of_passes hclose))))

theorem evaluates_noVersionPiece (hend : ∀ x ∈ d.rest.head?, ¬ isVersionChar x) :
    Evaluates grammar m versionPiece d none := by
  have hlit : ∀ (x : Char) (chars : List Char), isVersionChar x →
      Evaluates grammar m (.text (x :: chars)) d none :=
    fun x chars hx => evaluates_noText fun heq => hend x heq hx
  have hoff : firstWord d.rest = [] := firstWord_eq_nil fun x hx hname =>
    hend x hx (by simp [isVersionChar, isDottedChar, hname])
  exact .second (.noFirst (hlit '$' _ (by decide))) (.second (evaluates_noNameChar hoff)
    (.second (hlit '.' _ (by decide)) (hlit '+' _ (by decide))))

theorem takes_versionName {version : String} (h : IsVersion version)
    (hpasses : c.Passes version.toList d) (hend : ∀ x ∈ d.rest.head?, ¬ isVersionChar x) :
    Takes {} .versionName version c d := by
  have hm : (grammar.modes {} .versionName).2.kind ≠ .normal := modes_atomic rfl
  refine takes_of_body rfl rfl hpasses ?_
  obtain ⟨pieces, hpieces, hne, hall⟩ := h
  rw [hpieces] at hpasses
  cases pieces with
  | nil => exact absurd rfl hne
  | cons piece pieces =>
    obtain ⟨e, hone, hrest⟩ := passes_split (u := piece) hpasses
    refine seq_of_kind hm (evaluates_versionPiece hm (hall piece List.mem_cons_self) hone) ?_
    exact evaluates_star_pieces (fun _ => True) hm (fun _ _ _ => trivial)
      (fun piece hpiece _ _ hpasses _ =>
        evaluates_versionPiece hm (hall piece (List.mem_cons_of_mem _ hpiece)) hpasses)
      hrest trivial (evaluates_noVersionPiece hend)

/-- The value of a setting: something on one line, without blanks at its ends. -/
structure IsValue (value : String) : Prop where
  ne_empty : value ≠ ""
  isSingleLine : isSingleLine value
  trim_eq : Text.trim value = value

/-- What can stand between two backticks. -/
structure IsRawText (text : String) : Prop where
  no_backtick : '\x60' ∉ text.toList
  trim_eq : Text.trim text = text

theorem takes_text {value : String} (h : IsValue value) (hpasses : c.Passes value.toList d)
    (hend : d.rest.head? = some '\n') : Takes {} .text value c d := by
  have hm : (grammar.modes {} .text).2.kind ≠ .normal := modes_atomic rfl
  refine takes_of_body rfl rfl hpasses ?_
  refine evaluates_plus_chars hm (fun hnil => h.ne_empty (String.toList_inj.mp hnil)) ?_ hpasses ?_
  · intro x hx index rest
    have hline : ¬ Layout.endsLine x := by
      simpa using List.all_eq_true.mp h.isSingleLine x hx
    refine evaluates_anyExcept hm ?_
    have hne : ∀ y, Layout.endsLine y → (x :: rest).head? ≠ some y := by
      rintro y hy heq
      exact hline (Option.some.inj heq ▸ hy)
    exact .second (evaluates_noText (hne '\n' (by decide)))
      (.second (evaluates_noText (hne '\r' (by decide))) (evaluates_noText (hne '\r' (by decide))))
  · obtain ⟨index, rest⟩ := d
    obtain ⟨rest, rfl⟩ := List.head?_eq_some_iff.mp hend
    exact .noFirst (.noAbsent (.first (.text rfl)))

/-- A raw entry is the word `raw`, a blank and a text between backticks. -/
theorem evaluates_raw {text : String} (h : IsRawText text)
    (hpasses : c.Passes ("raw \x60" ++ text ++ "\x60").toList d) :
    ∃ s s' s'', Evaluates grammar {} (.rule .raw) c
      (some ([.node .raw s [.token .kwRaw s' "raw", .token .rawContent s'' text]], d)) := by
  have hsplit : ("raw \x60" ++ text ++ "\x60").toList =
      "raw".toList ++ ([' '] ++ (['\x60'] ++ (text.toList ++ ['\x60']))) := by simp
  rw [hsplit] at hpasses
  obtain ⟨c₁, hword, hpasses⟩ := passes_split hpasses
  obtain ⟨c₂, hblank, hpasses⟩ := passes_split hpasses
  obtain ⟨c₃, hopen, hpasses⟩ := passes_split hpasses
  obtain ⟨c₄, htext, hclose⟩ := passes_split hpasses
  have hm : ({ kind := .compound } : Mode).kind ≠ .normal := by decide
  have hkeeps : ({ kind := .compound } : Mode).keepsTrees := by decide
  have hraw : Takes { kind := .compound } .kwRaw "raw" c c₁ := by
    refine takes_word (isVocabulary_singleton (by decide)) rfl rfl hkeeps List.mem_cons_self
      hword ?_
    rw [hblank.rest_eq]
    rfl
  have hblanks : Evaluates grammar { kind := .compound } (.star Grammar.blank) c₁
      (some ([], c₂)) := by
    refine evaluates_star_chars hm (u := [' ']) ?_ hblank ?_
    · intro x hx index rest
      obtain rfl := List.mem_singleton.mp hx
      exact .first (.text rfl)
    · have hnot : ∀ x, x ≠ '\x60' → c₂.rest.head? ≠ some x := by
        intro x hx heq
        rw [hopen.rest_eq] at heq
        exact hx (Option.some.inj heq).symm
      exact .second (evaluates_noText (hnot _ (by decide))) (.second
        (evaluates_noText (hnot _ (by decide))) (.second (evaluates_noText (hnot _ (by decide)))
          (evaluates_noText (hnot _ (by decide)))))
  have hcontent : Takes { kind := .compound } .rawContent text c₃ c₄ := by
    have hatomic : (grammar.modes { kind := .compound } .rawContent).2.kind ≠ .normal :=
      modes_atomic rfl
    refine takes_of_body rfl hkeeps htext (evaluates_star_chars hatomic ?_ htext ?_)
    · intro x hx index rest
      refine evaluates_anyExcept hatomic (evaluates_noText (x := '\x60') fun heq => ?_)
      exact h.no_backtick (Option.some.inj heq ▸ hx)
    · exact .noFirst (.noAbsent (.text (strip?_of_passes hclose)))
  have hbody : Evaluates grammar { kind := .compound } (grammar.body .raw) c _ :=
    seq_of_kind hm hraw (seq_of_kind hm hblanks (seq_of_kind hm (.text (strip?_of_passes hopen))
      (seq_of_kind hm hcontent (.text (strip?_of_passes hclose)))))
  exact ⟨_, _, _, .rule hbody⟩

theorem trim_eq_self {s : String} (h : ∀ x ∈ s.toList, ¬ Text.isBlank x) : Text.trim s = s := by
  have hdrop : ∀ u : List Char, (∀ x ∈ u, ¬ Text.isBlank x) → Text.dropBlanks u = u := by
    intro u hu
    cases u with
    | nil => rfl
    | cons x u => exact List.dropWhile_cons_of_neg (hu x List.mem_cons_self)
  rw [Text.trim, Text.dropBlanksEnd, hdrop s.toList h, hdrop s.toList.reverse, List.reverse_reverse,
    String.ofList_toList]
  exact fun x hx => h x (List.mem_reverse.mp hx)

theorem range_of_isAlphanum {x : Char} (h : x.isAlphanum) : 48 ≤ x.toNat ∧ x.toNat ≤ 122 := by
  simp only [Char.isAlphanum, isAlpha_iff, isUpper_iff, isLower_iff, Char.isDigit, Bool.or_eq_true,
    Bool.and_eq_true, decide_eq_true_eq, ge_iff_le, UInt32.le_iff_toNat_le] at h
  change (65 ≤ x.toNat ∧ x.toNat ≤ 90 ∨ 97 ≤ x.toNat ∧ x.toNat ≤ 122) ∨
    48 ≤ x.toNat ∧ x.toNat ≤ 57 at h
  omega

theorem range_of_isVersionChar {x : Char} (h : isVersionChar x) :
    36 ≤ x.toNat ∧ x.toNat ≤ 125 ∧ x ≠ '/' ∧ x ≠ ';' := by
  simp only [isVersionChar, isDottedChar, isNameChar, Bool.or_eq_true, beq_iff_eq] at h
  rcases h with ((((((halpha | rfl) | rfl) | rfl) | rfl) | rfl) | rfl) | rfl
  · obtain ⟨hlow, hhigh⟩ := range_of_isAlphanum halpha
    refine ⟨by omega, by omega, ?_, ?_⟩ <;> rintro rfl <;> revert halpha <;> decide
  all_goals decide

theorem not_isBlank_of_isVersionChar {x : Char} (h : isVersionChar x) : ¬ Text.isBlank x := by
  intro hblank
  obtain ⟨hlow, hhigh, -⟩ := range_of_isVersionChar h
  simp only [Text.isBlank, Bool.or_eq_true, Bool.and_eq_true, decide_eq_true_eq,
    beq_iff_eq] at hblank
  omega

theorem trim_of_isVersionChars {s : String} (h : s.toList.all isVersionChar) : Text.trim s = s :=
  trim_eq_self fun x hx => not_isBlank_of_isVersionChar (List.all_eq_true.mp h x hx)

theorem IsName.all_isDottedChar {name : String} (h : IsName name) :
    name.toList.all isDottedChar := by
  obtain ⟨first, others, rfl, hwords, -⟩ := h
  have hword : ∀ w ∈ first :: others, ∀ x ∈ w.toList, isDottedChar x := by
    intro w hw x hx
    simp [isDottedChar, List.all_eq_true.mp (hwords w hw).2 x hx]
  rw [toList_joinWith_dots, List.all_append, Bool.and_eq_true]
  refine ⟨List.all_eq_true.mpr (hword first List.mem_cons_self), List.all_eq_true.mpr ?_⟩
  intro x hx
  obtain ⟨piece, hpiece, hx⟩ := List.mem_flatten.mp hx
  obtain ⟨w, hw, rfl⟩ := List.mem_map.mp hpiece
  rcases List.mem_cons.mp hx with rfl | hx
  · decide
  · exact hword w (List.mem_cons_of_mem first hw) x hx

theorem IsVersion.all_isVersionChar {version : String} (h : IsVersion version) :
    version.toList.all isVersionChar := by
  have hname : ∀ x, isNameChar x → isVersionChar x :=
    fun x hx => by simp [isVersionChar, isDottedChar, hx]
  obtain ⟨pieces, hpieces, -, hall⟩ := h
  rw [hpieces]
  refine List.all_eq_true.mpr fun x hx => ?_
  obtain ⟨piece, hpiece, hx⟩ := List.mem_flatten.mp hx
  rcases hall piece hpiece with ⟨y, rfl, hy⟩ | ⟨w, hw, rfl⟩
  · obtain rfl := List.mem_singleton.mp hx
    rcases hy with hy | rfl | rfl
    · exact hname x hy
    · decide
    · decide
  · simp only [String.toList_append, List.mem_append] at hx
    rcases hx with (hx | hx) | hx
    · exact List.all_eq_true.mp (show "$\x7b".toList.all isVersionChar by decide) x hx
    · exact hname x (List.all_eq_true.mp hw.2 x hx)
    · exact List.all_eq_true.mp (show "\x7d".toList.all isVersionChar by decide) x hx

theorem IsName.trim_eq {name : String} (h : IsName name) : Text.trim name = name := by
  refine trim_of_isVersionChars (List.all_eq_true.mpr fun x hx => ?_)
  exact isVersionChar_of_isDottedChar (List.all_eq_true.mp h.all_isDottedChar x hx)

theorem IsVersion.trim_eq {version : String} (h : IsVersion version) :
    Text.trim version = version :=
  trim_of_isVersionChars h.all_isVersionChar

/-- What is left unchanged by trimming does not start with a blank. -/
theorem not_isBlank_of_trim_eq {s : String} {x : Char} (h : Text.trim s = s)
    (hs : s.toList = x :: u) : ¬ Text.isBlank x := by
  intro hx
  have hdrop : ∀ u : List Char, (Text.dropBlanks u).length ≤ u.length :=
    fun u => (List.dropWhile_suffix _).length_le
  have hstart : Text.dropBlanks (x :: u) = Text.dropBlanks u := List.dropWhile_cons_of_pos hx
  have hlength : (Text.trim s).toList.length ≤ u.length := by
    rw [Text.trim, String.toList_ofList, hs, hstart, Text.dropBlanksEnd, List.length_reverse]
    refine (hdrop _).trans ?_
    rw [List.length_reverse]
    exact hdrop u
  rw [h, hs, List.length_cons] at hlength
  omega

end QuovaKotlin.Module

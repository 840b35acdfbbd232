import QuovaKotlin.Proofs.Probing
import QuovaKotlin.Proofs.SourceTokens

/-!
# Looking ahead in source texts

A source text shows what it goes on with in its next words, names and marks. `look` foretells from
these what the source grammar does with the text.
-/

set_option autoImplicit false

namespace QuovaKotlin.Source

open Peg Peg.Grammar Lexical

/-- The texts of a choice between literal texts. -/
def texts : Pattern Rule → List (List Char)
  | .text chars => [chars]
  | .choice p q => texts p ++ texts q
  | _ => []

/-- A choice between words. -/
def isWordChoice : Pattern Rule → Bool
  | .text chars => chars.all isWordChar
  | .choice p q => isWordChoice p && isWordChoice q
  | _ => false

/-- The words that a rule stands for, if it does nothing but match whole words. -/
def wordsOf : Pattern Rule → Option (List (List Char))
  | .seq p (.absent q) => if isWordChoice p && q = Grammar.identChar then some (texts p) else none
  | _ => none

def keywords : List (List Char) :=
  (wordsOf (grammar.body .keyword)).getD []

/-- An identifier: a letter, `_` or `$`, then letters, digits, `_` and `$`, and no keyword. -/
def isName : List Char → Bool
  | [] => false
  | x :: rest => isWordStart x && rest.all isWordChar && ! keywords.contains (x :: rest)

theorem isWordChar_of_isWordStart {x : Char} (hx : isWordStart x) : isWordChar x := by
  simp only [isWordStart, Bool.or_eq_true, beq_iff_eq] at hx
  rcases hx with (hx | rfl) | rfl
  · exact isWordChar_of_letter hx
  · decide
  · decide

theorem isName_word {u : List Char} (h : isName u) : ∀ x ∈ u, isWordChar x := by
  cases u with
  | nil => cases h
  | cons x rest =>
    simp only [isName, Bool.and_eq_true] at h
    intro y hy
    rcases List.mem_cons.mp hy with rfl | hy
    · exact isWordChar_of_isWordStart h.1.1
    · exact List.all_eq_true.mp h.1.2 y hy

section

variable {c d : Cursor} {u t : List Char} {m : Mode}

/-- A word at a place is a part of the longest word there. -/
theorem prefix_of_passes (hu : c.Passes u d) (hoff : OffWord d.rest) (ht : t <+: c.rest)
    (hword : ∀ x ∈ t, isWordChar x) : t <+: u := by
  have hlong : u <+: c.rest := ⟨d.rest, hu.rest_eq.symm⟩
  rcases List.prefix_or_prefix_of_prefix ht hlong with h | ⟨s, rfl⟩
  · exact h
  · rw [hu.rest_eq, List.prefix_append_right_inj] at ht
    cases s with
    | nil => exact ⟨[], by simp⟩
    | cons x s =>
      obtain ⟨view, hview⟩ := ht
      refine absurd (hword x (by simp)) (hoff x ?_)
      rw [← hview]
      rfl

theorem isWordChoice_word {p : Pattern Rule} (hp : isWordChoice p) :
    ∀ t ∈ texts p, ∀ x ∈ t, isWordChar x := by
  induction p with
  | text chars =>
    intro t ht
    obtain rfl := List.mem_singleton.mp ht
    exact List.all_eq_true.mp hp
  | choice p q ihp ihq =>
    obtain ⟨hp, hq⟩ := Bool.and_eq_true_iff.mp hp
    intro t ht
    rcases List.mem_append.mp ht with ht | ht
    · exact ihp hp t ht
    · exact ihq hq t ht
  | _ => cases hp

/-- A choice between words fails, or matches one of them. -/
theorem evaluates_wordChoice {p : Pattern Rule} (hp : isWordChoice p) (m : Mode) (c : Cursor) :
    Evaluates grammar m p c none ∨
      ∃ t ∈ texts p, ∃ d, c.Passes t d ∧ Evaluates grammar m p c (some ([], d)) := by
  induction p with
  | text chars =>
    cases hstrip : c.strip? chars with
    | none => exact .inl (.noText hstrip)
    | some d =>
      exact .inr ⟨chars, List.mem_cons_self, d, Cursor.strip?_passes hstrip, .text hstrip⟩
  | choice p q ihp ihq =>
    obtain ⟨hp, hq⟩ := Bool.and_eq_true_iff.mp hp
    rcases ihp hp with hnone | ⟨t, ht, d, hpasses, hsome⟩
    · rcases ihq hq with hnone' | ⟨t, ht, d, hpasses, hsome⟩
      · exact .inl (.second hnone hnone')
      · exact .inr ⟨t, List.mem_append_right _ ht, d, hpasses, .second hnone hsome⟩
    · exact .inr ⟨t, List.mem_append_left _ ht, d, hpasses, .first hsome⟩
  | _ => cases hp

/-- If no word of a choice goes on as a later one, then each of them is matched. -/
theorem evaluates_wordOfChoice {p : Pattern Rule} (hp : isWordChoice p)
    (hordered : (texts p).Pairwise fun s t => s <+: t → s = t) (hu : u ∈ texts p)
    (hpasses : c.Passes u d) (hoff : OffWord d.rest) :
    Evaluates grammar m p c (some ([], d)) := by
  induction p with
  | text chars =>
    obtain rfl := List.mem_singleton.mp hu
    exact .text (strip?_of_passes hpasses)
  | choice p q ihp ihq =>
    obtain ⟨hp, hq⟩ := Bool.and_eq_true_iff.mp hp
    obtain ⟨hordered, hordered', hbetween⟩ := List.pairwise_append.mp hordered
    rcases List.mem_append.mp hu with hu | hu
    · exact .first (ihp hp hordered hu)
    · rcases evaluates_wordChoice hp m c with hnone | ⟨t, ht, e, hpasses', hsome⟩
      · exact .second hnone (ihq hq hordered' hu)
      · have hprefix : t <+: u :=
          prefix_of_passes hpasses hoff ⟨e.rest, hpasses'.rest_eq.symm⟩ (isWordChoice_word hp t ht)
        obtain rfl := hbetween t ht u hu hprefix
        obtain rfl : e = d :=
          Option.some.inj ((strip?_of_passes hpasses').symm.trans (strip?_of_passes hpasses))
        exact .first hsome
  | _ => cases hp

theorem evaluates_identChar {x : Char} {index : Nat} {rest : List Char} (hx : isWordChar x) :
    Evaluates grammar m Grammar.identChar ⟨index, x :: rest⟩ (some ([], ⟨index + 1, rest⟩)) := by
  simp only [isWordChar, Bool.or_eq_true, beq_iff_eq] at hx
  by_cases halpha : x.isAlphanum
  · exact .first (.char halpha)
  · have hno : Evaluates grammar m (.char .alphanumeric) ⟨index, x :: rest⟩ none := by
      refine .noChar fun y rest' hrest => ?_
      obtain ⟨rfl, -⟩ := List.cons.inj hrest
      exact halpha
    rcases hx with (hx | rfl) | rfl
    · exact absurd hx halpha
    · exact .second hno (.first (.text rfl))
    · exact .second hno (.second (.noText rfl) (.text rfl))

theorem evaluates_noIdentChar (hm : m.kind ≠ .normal) (hoff : OffWord c.rest) :
    Evaluates grammar m Grammar.identChar c none := by
  have htrusted := trusted_ofChars grammar (fun _ : true = true => hoff)
  exact htrusted.fails 4 hm (.refl c) (by decide)

theorem evaluates_identStart {x : Char} {index : Nat} {rest : List Char} (hx : isWordStart x) :
    Evaluates grammar m Grammar.identStart ⟨index, x :: rest⟩ (some ([], ⟨index + 1, rest⟩)) := by
  simp only [isWordStart, Bool.or_eq_true, beq_iff_eq] at hx
  by_cases halpha : x.isAlpha
  · exact .first (.char halpha)
  · have hno : Evaluates grammar m (.char .letter) ⟨index, x :: rest⟩ none := by
      refine .noChar fun y rest' hrest => ?_
      obtain ⟨rfl, -⟩ := List.cons.inj hrest
      exact halpha
    rcases hx with (hx | rfl) | rfl
    · exact absurd hx halpha
    · exact .second hno (.first (.text rfl))
    · exact .second hno (.second (.noText rfl) (.text rfl))

theorem passes_of_identStart {ts : List Reading.Node}
    (h : Evaluates grammar m Grammar.identStart c (some (ts, d))) :
    ∃ x, isWordStart x ∧ c.Passes [x] d := by
  rcases h.of_choice with h | ⟨-, h⟩
  · cases h with
    | char hx => exact ⟨_, by simp [isWordStart, show Char.isAlpha _ = true from hx], .step⟩
  · rcases h.of_choice with h | ⟨-, h⟩
    · exact ⟨'_', by decide, h.of_text.2⟩
    · exact ⟨'$', by decide, h.of_text.2⟩

theorem passes_of_identChar {ts : List Reading.Node}
    (h : Evaluates grammar m Grammar.identChar c (some (ts, d))) :
    ∃ x, isWordChar x ∧ c.Passes [x] d := by
  rcases h.of_choice with h | ⟨-, h⟩
  · cases h with
    | char hx => exact ⟨_, by simp [isWordChar, show Char.isAlphanum _ = true from hx], .step⟩
  · rcases h.of_choice with h | ⟨-, h⟩
    · exact ⟨'_', by decide, h.of_text.2⟩
    · exact ⟨'$', by decide, h.of_text.2⟩

theorem wordsOf_eq {p : Pattern Rule} {ws : List (List Char)} (hws : wordsOf p = some ws) :
    ∃ q, p = .seq q (.absent Grammar.identChar) ∧ isWordChoice q ∧ texts q = ws := by
  unfold wordsOf at hws
  split at hws
  · split at hws
    · next hpq =>
      obtain ⟨hp, hq⟩ := Bool.and_eq_true_iff.mp hpq
      obtain rfl := of_decide_eq_true hq
      exact ⟨_, rfl, hp, Option.some.inj hws⟩
    · cases hws
  · cases hws

/-- A rule of words fails at any other word. -/
theorem evaluates_noWord {p : Pattern Rule} {ws : List (List Char)} (hws : wordsOf p = some ws)
    (hm : m.kind ≠ .normal) (hpasses : c.Passes u d) (hoff : OffWord d.rest)
    (hword : ∀ x ∈ u, isWordChar x) (hu : u ∉ ws) : Evaluates grammar m p c none := by
  obtain ⟨q, rfl, hq, rfl⟩ := wordsOf_eq hws
  rcases evaluates_wordChoice hq m c with hnone | ⟨t, ht, e, hpasses', hsome⟩
  · exact .noFirst hnone
  · -- a shorter word is matched, so a character of a word follows
    obtain ⟨s, hs⟩ : t <+: u :=
      prefix_of_passes hpasses hoff ⟨e.rest, hpasses'.rest_eq.symm⟩ (isWordChoice_word hq t ht)
    cases s with
    | nil =>
      rw [List.append_nil] at hs
      exact absurd (hs ▸ ht) hu
    | cons x s =>
      obtain ⟨index, rest⟩ := e
      have hrest : rest = x :: (s ++ d.rest) := by
        have happend : t ++ rest = t ++ (x :: (s ++ d.rest)) := by
          rw [← hpasses'.rest_eq, hpasses.rest_eq, ← hs, List.append_assoc]
          rfl
        exact List.append_cancel_left happend
      subst hrest
      refine .noSecond hsome ?_
      rw [between_of_kind hm]
      exact .noAbsent (evaluates_identChar (hword x (by rw [← hs]; simp)))

theorem evaluates_word {p : Pattern Rule} {ws : List (List Char)} (hws : wordsOf p = some ws)
    (hordered : ws.Pairwise fun s t => s <+: t → s = t) (hm : m.kind ≠ .normal) (hu : u ∈ ws)
    (hpasses : c.Passes u d) (hoff : OffWord d.rest) :
    Evaluates grammar m p c (some ([], d)) := by
  obtain ⟨q, rfl, hq, rfl⟩ := wordsOf_eq hws
  exact seq_of_kind hm (evaluates_wordOfChoice hq hordered hu hpasses hoff)
    (.absent (evaluates_noIdentChar hm hoff))

theorem word_of_evaluates {p : Pattern Rule} {ws : List (List Char)} {ts : List Reading.Node}
    (hws : wordsOf p = some ws) (h : Evaluates grammar m p c (some (ts, d)))
    (hm : m.kind ≠ .normal) : ∃ w ∈ ws, c.Passes w d ∧ OffWord d.rest := by
  obtain ⟨q, rfl, hq, rfl⟩ := wordsOf_eq hws
  obtain ⟨_, _, e, -, hchoice, habsent⟩ := h.of_seq
  rw [between_of_kind hm] at habsent
  obtain ⟨-, rfl, hnone⟩ := habsent.of_absent
  rcases evaluates_wordChoice hq m c with hnone' | ⟨w, hw, e', hpasses, hsome⟩
  · cases hchoice.unique hnone'
  · cases hchoice.unique hsome
    exact ⟨w, hw, hpasses, offWord_of_identChar hnone⟩

/-- A rule of words matches one of its words. -/
theorem word_of_rule {r : Rule} (ws : List (List Char)) {ts : List Reading.Node}
    (hws : wordsOf (grammar.body r) = some ws) (hkind : grammar.kind r = .atomic)
    (h : Evaluates grammar {} (.rule r) c (some (ts, d))) :
    ∃ w ∈ ws, c.Passes w d ∧ OffWord d.rest := by
  obtain ⟨inner, -, h⟩ := h.of_rule grammar_kind
  exact word_of_evaluates hws h (modes_atomic hkind)

theorem wordsOf_keyword : wordsOf (grammar.body .keyword) = some keywords := by
  decide +kernel

theorem isName_iff : isName u ↔
    ∃ x rest, u = x :: rest ∧ isWordStart x ∧ (∀ y ∈ rest, isWordChar y) ∧ u ∉ keywords := by
  cases u with
  | nil => simp [isName]
  | cons x rest => simp [isName, and_assoc]

theorem evaluates_noKeyword (hname : isName u) (hm : m.kind ≠ .normal) (hpasses : c.Passes u d)
    (hoff : OffWord d.rest) : Evaluates grammar m (.rule .keyword) c none := by
  obtain ⟨x, rest, -, -, -, hfree⟩ := isName_iff.mp hname
  refine .noRule (evaluates_noWord wordsOf_keyword ?_ hpasses hoff (isName_word hname) hfree)
  exact (modes_of_kind hm _).1

theorem evaluates_identChars {rest : List Char} {index : Nat} (hm : m.kind ≠ .normal)
    (hword : ∀ x ∈ u, isWordChar x) (hoff : OffWord rest) :
    Evaluates grammar m (.more Grammar.identChar) ⟨index, u ++ rest⟩
      (some ([], ⟨index + u.length, rest⟩)) := by
  induction u generalizing index with
  | nil =>
    refine .noMore ?_
    rw [between_of_kind hm]
    exact evaluates_noIdentChar hm hoff
  | cons x u ih =>
    have hrest : Evaluates grammar m (.more Grammar.identChar) ⟨index + 1, u ++ rest⟩
        (some ([], ⟨index + 1 + u.length, rest⟩)) :=
      ih fun y hy => hword y (List.mem_cons_of_mem x hy)
    have hround : Evaluates grammar m Grammar.identChar
        (between m ⟨index, x :: (u ++ rest)⟩) (some ([], ⟨index + 1, u ++ rest⟩)) := by
      rw [between_of_kind hm]
      exact evaluates_identChar (hword x List.mem_cons_self)
    have hindex : index + (x :: u).length = index + 1 + u.length := by
      rw [List.length_cons]
      omega
    rw [hindex]
    exact .more hround hrest

theorem evaluates_nameBody (hm : m.kind ≠ .normal) (hname : isName u) (hpasses : c.Passes u d)
    (hoff : OffWord d.rest) :
    Evaluates grammar m (grammar.body .simpleIdentifier) c (some ([], d)) := by
  have hkeyword : Evaluates grammar m (.absent (.rule .keyword)) c (some ([], c)) :=
    .absent (evaluates_noKeyword hname hm hpasses hoff)
  obtain ⟨x, rest, rfl, hx, hword, -⟩ := isName_iff.mp hname
  obtain ⟨index, view⟩ := c
  obtain ⟨index', view'⟩ := d
  obtain rfl : view = x :: (rest ++ view') := hpasses.rest_eq
  obtain rfl : index' = index + 1 + rest.length := by
    have hindex := hpasses.index_eq
    simp only [List.length_cons] at hindex
    omega
  have hstart : Evaluates grammar m Grammar.identStart ⟨index, x :: (rest ++ view')⟩
      (some ([], ⟨index + 1, rest ++ view'⟩)) := evaluates_identStart hx
  have hchars : Evaluates grammar m (.star Grammar.identChar) ⟨index + 1, rest ++ view'⟩
      (some ([], ⟨index + 1 + rest.length, view'⟩)) :=
    (evaluates_star_iff (between_of_kind hm _)).mpr (evaluates_identChars hm hword hoff)
  exact seq_of_kind hm hkeyword (seq_of_kind hm hstart hchars)

/-- A name is matched by the rule of identifiers. -/
theorem evaluates_name (hname : isName u) (hpasses : c.Passes u d) (hoff : OffWord d.rest) :
    ∃ ts, Evaluates grammar m (.rule .simpleIdentifier) c (some (ts, d)) :=
  ⟨_, .rule (evaluates_nameBody (modes_atomic rfl) hname hpasses hoff)⟩

theorem keywords_ordered : keywords.Pairwise fun s t => s <+: t → s = t := by
  decide +kernel

theorem passes_of_identChars {ts : List Reading.Node} (hm : m.kind ≠ .normal)
    (h : Evaluates grammar m (.more Grammar.identChar) c (some (ts, d))) :
    ∃ v, (∀ x ∈ v, isWordChar x) ∧ c.Passes v d := by
  refine h.more_induction (motive := fun c _ d => ∃ v, (∀ x ∈ v, isWordChar x) ∧ c.Passes v d)
    (fun c _ => ⟨[], nofun, .refl c⟩) ?_
  intro c us e vs d hround hrest
  rw [between_of_kind hm] at hround
  obtain ⟨x, hx, hstep⟩ := passes_of_identChar hround
  obtain ⟨v, hv, hpasses⟩ := hrest
  refine ⟨x :: v, ?_, hstep.trans hpasses⟩
  intro y hy
  rcases List.mem_cons.mp hy with rfl | hy
  · exact hx
  · exact hv y hy

/-- What the rule of identifiers matches is a name. -/
theorem name_of_evaluates {t : Reading.Node}
    (h : Evaluates grammar {} (.rule .simpleIdentifier) c (some ([t], d))) :
    ∃ u, isName u ∧ c.Passes u d ∧ OffWord d.rest := by
  obtain ⟨u, inner, rfl, hpasses, -, h⟩ := token_of_rule rfl h
  have hatomic : ({ kind := .atomic } : Mode).kind ≠ .normal := by decide
  have hoff : OffWord d.rest := offWord_of_endsWord hatomic rfl h
  refine ⟨u, ?_, hpasses, hoff⟩
  obtain ⟨_, _, _, -, habsent, hrest⟩ := h.of_seq
  obtain ⟨-, rfl, hkeyword⟩ := habsent.of_absent
  obtain ⟨_, _, e, -, hstart, hchars⟩ := hrest.of_seq
  rw [between_of_kind hatomic] at hstart hchars
  obtain ⟨x, hx, hstep⟩ := passes_of_identStart hstart
  obtain ⟨v, hv, hpasses'⟩ := passes_of_identChars hatomic
    ((evaluates_star_iff (between_of_kind hatomic e)).mp hchars)
  obtain rfl : u = x :: v := hpasses.unique (hstep.trans hpasses')
  refine isName_iff.mpr ⟨x, v, rfl, hx, hv, ?_⟩
  intro hmem
  have hkind : (grammar.modes { kind := .atomic, lookahead := .negative } .keyword).2.kind ≠
      .normal := modes_atomic rfl
  have hsome := evaluates_word wordsOf_keyword keywords_ordered hkind hmem hpasses hoff
  cases hkeyword.unique (.rule hsome)

end

/-- What a text goes on with. -/
inductive Token
  | mark (x : Char)
  | word (text : String)
  | name
  deriving DecidableEq

/-- The text goes on with the given tokens, up to layout between them; behind a mark nothing is
known. -/
def Ahead : List Token → Cursor → Prop
  | [], _ => True
  | .mark x :: _, c => ∃ rest, c.rest = x :: rest
  | .word text :: tokens, c =>
    ∃ d, c.Passes text.toList d ∧ OffWord d.rest ∧ Ahead tokens d.skipLayout
  | .name :: tokens, c =>
    ∃ u d, isName u ∧ c.Passes u d ∧ OffWord d.rest ∧ Ahead tokens d.skipLayout

def lookText : List Char → List Token → Probe (List Token)
  | [], tokens => .passes tokens
  | x :: _, .mark y :: _ => if x = y then .unknown else .fails
  | x :: _, .word text :: _ =>
    match text.toList with
    | [] => .unknown
    | y :: _ => if x = y then .unknown else .fails
  | x :: _, .name :: _ => if isWordStart x then .unknown else .fails
  | _, [] => .unknown

/-- What a rule of single tokens does at a name. -/
def lookName (r : Rule) (tokens : List Token) : Probe (List Token) :=
  if r = .simpleIdentifier then .passes tokens
  else if r = .identifier then
    match tokens with
    | .mark x :: _ => if x = '.' then .unknown else .passes tokens
    | _ => .unknown
  else if ((wordsOf (grammar.body r)).any fun ws => ws.all (keywords.contains ·)) then .fails
  else if grammar.probe ofWordStart 100 (grammar.body r) () = .fails then .fails
  else .unknown

/-- What a rule of single tokens does. -/
def lookToken (r : Rule) : List Token → Probe (List Token)
  | [] => .unknown
  | .mark x :: _ =>
    if grammar.probe (ofChars false) 100 (grammar.body r) [x] = .fails then .fails else .unknown
  | .word text :: tokens =>
    match grammar.probe (ofChars true) 100 (grammar.body r) text.toList with
    | .fails => .fails
    | .passes [] => .passes tokens
    | _ => .unknown
  | .name :: tokens => lookName r tokens

def ofTokens : Pattern Rule → List Token → Option (Probe (List Token))
  | .text chars, tokens => some (lookText chars tokens)
  | .rule r, tokens => if grammar.kind r = .atomic then some (lookToken r tokens) else none
  | _, _ => none

/-- What is foretold of a pattern in front of the given tokens. -/
def look (p : Pattern Rule) (tokens : List Token) : Probe (List Token) :=
  grammar.probe ofTokens 100 p tokens

/-- The place is one where the tokens start. -/
def AtTokens (tokens : List Token) (c : Cursor) : Prop :=
  c.skipLayout = c ∧ Ahead tokens c

section

variable {m : Mode} {c : Cursor} {tokens : List Token} {r : Rule}

theorem strip?_of_head {x y : Char} {chars rest : List Char} (hrest : c.rest = y :: rest)
    (hne : x ≠ y) : c.strip? (x :: chars) = none := by
  rw [Cursor.strip?, hrest]
  exact if_neg hne

theorem between_of_normal (hm : m.kind = .normal) (c : Cursor) : between m c = c.skipLayout := by
  rw [between, if_pos hm]

theorem foretells_lookText {chars : List Char} (hm : m.kind = .normal) (hc : AtTokens tokens c) :
    Foretells grammar AtTokens m (.text chars) c (lookText chars tokens) := by
  match chars, tokens with
  | [], _ =>
    refine ⟨[], c, .text rfl, ?_⟩
    rw [between_of_normal hm, hc.1]
    exact hc
  | _ :: _, [] => trivial
  | x :: _, .mark y :: _ =>
    rw [lookText]
    split
    · trivial
    · next hne =>
      obtain ⟨rest, hrest⟩ := hc.2
      exact .noText (strip?_of_head hrest hne)
  | x :: _, .word text :: _ =>
    rw [lookText]
    obtain ⟨d, hpasses, -⟩ := hc.2
    cases htext : text.toList with
    | nil => trivial
    | cons y ys =>
      rw [htext] at hpasses
      show Foretells grammar AtTokens m _ c (if x = y then .unknown else .fails)
      split
      · trivial
      · next hne => exact .noText (strip?_of_head hpasses.rest_eq hne)
  | x :: _, .name :: _ =>
    rw [lookText]
    split
    · trivial
    · next hx =>
      obtain ⟨u, d, hname, hpasses, -⟩ := hc.2
      obtain ⟨y, rest, rfl, hy, -⟩ := isName_iff.mp hname
      refine .noText (strip?_of_head hpasses.rest_eq ?_)
      rintro rfl
      exact hx hy

theorem foretells_lookName (hm : m.kind = .normal) (hkind : grammar.kind r = .atomic)
    (hc : AtTokens (.name :: tokens) c) :
    Foretells grammar AtTokens m (.rule r) c (lookName r tokens) := by
  have hatomic : (grammar.modes m r).2.kind ≠ .normal := modes_atomic hkind
  obtain ⟨u, d, hname, hpasses, hoff, hahead⟩ := hc.2
  have hnext : AtTokens tokens (between m d) := by
    rw [between_of_normal hm]
    exact ⟨d.skipLayout_skipLayout, hahead⟩
  fun_cases lookName r tokens with
  | case1 _ hr =>
    subst hr
    obtain ⟨ts, h⟩ := evaluates_name (m := m) hname hpasses hoff
    exact ⟨ts, d, h, hnext⟩
  | case2 => trivial
  | case3 hne hr x others hx =>
    subst hr
    -- a dot behind the name would be the next mark, for it is no layout
    have hdot : d.strip? ['.'] = none := by
      cases hstrip : d.strip? ['.'] with
      | none => rfl
      | some e =>
        have hpasses' := Cursor.strip?_passes hstrip
        obtain ⟨rest, hrest⟩ := hahead
        rw [skipLayout_of_passes hpasses' (by decide), hpasses'.rest_eq] at hrest
        exact absurd (List.cons.inj hrest).1.symm hx
    obtain ⟨ts, h⟩ := evaluates_name (m := (grammar.modes m .identifier).2) hname hpasses hoff
    exact ⟨_, d, .rule (seq_of_kind hatomic h (.noStar (.noFirst (.noText hdot)))), hnext⟩
  | case4 => trivial
  | case5 _ _ _ hwords =>
    cases hws : wordsOf (grammar.body r) with
    | none =>
      rw [hws] at hwords
      cases hwords
    | some ws =>
      rw [hws] at hwords
      obtain ⟨_, _, -, -, -, hfree⟩ := isName_iff.mp hname
      refine .noRule (evaluates_noWord hws hatomic hpasses hoff (isName_word hname) ?_)
      intro hmem
      exact hfree (List.contains_iff_mem.mp (List.all_eq_true.mp hwords u hmem))
  | case6 _ _ _ _ hprobe =>
    obtain ⟨x, rest, rfl, hx, -⟩ := isName_iff.mp hname
    exact .noRule ((trusted_ofWordStart grammar).fails 100 hatomic
      ⟨x, _, hpasses.rest_eq, hx⟩ hprobe)
  | case7 => trivial

theorem foretells_lookToken (hm : m.kind = .normal) (hkind : grammar.kind r = .atomic)
    (hc : AtTokens tokens c) : Foretells grammar AtTokens m (.rule r) c (lookToken r tokens) := by
  have hatomic : (grammar.modes m r).2.kind ≠ .normal := modes_atomic hkind
  fun_cases lookToken r tokens with
  | case1 => trivial
  | case2 x others hprobe =>
    obtain ⟨index, rest⟩ := c
    obtain ⟨rest, rfl⟩ := hc.2
    have htrusted := trusted_ofChars grammar (e := ⟨index + 1, rest⟩)
      (fun h : false = true => nomatch h)
    exact .noRule (htrusted.fails 100 hatomic .step hprobe)
  | case3 => trivial
  | case4 text others hprobe =>
    obtain ⟨d, hpasses, hoff, -⟩ := hc.2
    have htrusted := trusted_ofChars grammar (fun _ : true = true => hoff)
    exact .noRule (htrusted.fails 100 hatomic hpasses hprobe)
  | case5 text others hprobe =>
    obtain ⟨d, hpasses, hoff, hahead⟩ := hc.2
    have htrusted := trusted_ofChars grammar (fun _ : true = true => hoff)
    obtain ⟨ts, e, h, hend⟩ := htrusted.passes 100 hatomic hpasses hprobe
    rw [between_of_kind hatomic] at hend
    obtain rfl : e = d := Option.some.inj (strip?_of_passes hend)
    refine ⟨_, e, .rule h, ?_⟩
    rw [between_of_normal hm]
    exact ⟨e.skipLayout_skipLayout, hahead⟩
  | case6 => trivial
  | case7 => exact foretells_lookName hm hkind hc

theorem trusted_ofTokens : grammar.Trusted ofTokens AtTokens (·.kind = .normal) where
  settled hm hc := by rw [between_of_normal hm, hc.1]
  lookahead _ hm := hm
  rule {m r tokens} hm hatom := by
    have hkind : grammar.kind r ≠ .atomic := by
      intro hkind
      simp [ofTokens, hkind] at hatom
    have hmodes : (grammar.modes m r).2 = m := by
      unfold modes
      cases hnormal : grammar.kind r with
      | normal => rfl
      | atomic => exact absurd hnormal hkind
      | compound => exact absurd hnormal (grammar_kind r)
    rw [hmodes]
    exact ⟨hm, fun _ => rfl⟩
  atom {m p tokens c verdict} hm hc hverdict := by
    cases p with
    | text chars =>
      cases hverdict
      exact foretells_lookText hm hc
    | rule r =>
      simp only [ofTokens] at hverdict
      split at hverdict
      · next hkind =>
        cases hverdict
        exact foretells_lookToken hm hkind hc
      · cases hverdict
    | _ => cases hverdict

theorem fails_of_look {p : Pattern Rule} (h : look p tokens = .fails) (hc : AtTokens tokens c) :
    Evaluates grammar {} p c none :=
  trusted_ofTokens.fails 100 rfl hc h

end

end QuovaKotlin.Source

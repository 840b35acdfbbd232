import QuovaKotlin.Proofs.Chunks
import QuovaKotlin.Proofs.Reading.File
import QuovaKotlin.Proofs.Reading.FileAlike
import QuovaKotlin.Proofs.Shifting

/-!
# Layout does not matter

A pattern that asks for no blank does the same at two places with the same chunks in front of them:
it leaves the same trees, up to their spans, and stops in front of the same chunks. The source
grammar asks for blanks only inside quotes and shebang lines, and for the end of the input only where
layout has been skipped. So texts without these are parsed alike if they have the same chunks.
-/

set_option autoImplicit false

namespace QuovaKotlin.Peg

open Layout

variable {ρ : Type}

theorem CharClass.isVisible_of_accepts {cls : CharClass} {x : Char} (hcls : cls ≠ .any)
    (hx : cls.accepts x) : isVisible x := by
  cases hvisible : isVisible x with
  | true => rfl
  | false =>
    have hblank : ((x = ' ' ∨ x = '\t') ∨ x = '\r') ∨ x = '\n' := by
      simpa only [isVisible, isBlank, Bool.not_eq_false', Bool.or_eq_true, beq_iff_eq]
        using hvisible
    rcases hblank with ((rfl | rfl) | rfl) | rfl <;>
      cases cls with
      | any => exact absurd rfl hcls
      | digit | hexDigit | letter | alphanumeric => exact absurd hx (by decide)

theorem Cursor.strip?_alongside {c c' d : Cursor} {chars : List Char}
    (hchars : chars.all isVisible) (hc : Alongside c.rest c'.rest)
    (h : c.strip? chars = some d) :
    ∃ d', c'.strip? chars = some d' ∧ Alongside d.rest d'.rest := by
  induction chars generalizing c c' with
  | nil =>
    obtain rfl : c = d := by simpa [Cursor.strip?] using h
    exact ⟨c', rfl, hc⟩
  | cons x chars ih =>
    obtain ⟨hx, hchars⟩ := Bool.and_eq_true_iff.mp hchars
    obtain ⟨index, rest⟩ := c
    obtain ⟨index', rest'⟩ := c'
    cases rest with
    | nil => simp [Cursor.strip?] at h
    | cons y rest =>
      simp only [Cursor.strip?] at h ⊢
      split at h
      · next heq =>
        subst heq
        obtain ⟨v, rfl, hrest⟩ := hc.cons hx
        have hnext : ∃ d', (⟨index' + 1, v⟩ : Cursor).strip? chars = some d' ∧
            Alongside d.rest d'.rest := ih hchars hrest h
        simpa using hnext
      · cases h

theorem Cursor.strip?_alongside_none {c c' : Cursor} {chars : List Char}
    (hchars : chars.all isVisible) (hc : Alongside c.rest c'.rest)
    (h : c.strip? chars = none) : c'.strip? chars = none := by
  cases hstrip : c'.strip? chars with
  | none => rfl
  | some d' =>
    obtain ⟨d, hd, -⟩ := strip?_alongside hchars hc.symm hstrip
    rw [h] at hd
    cases hd

namespace Pattern

/-- The pattern asks neither for blanks nor for the ends of the input, and for no rule outside
`plain`. -/
def ignoresBlanks (plain : ρ → Bool) : Pattern ρ → Bool
  | .text chars => chars.all isVisible
  | .char cls => cls ≠ .any
  | .start | .stop => false
  | .rule r => plain r
  | .seq p q | .choice p q => p.ignoresBlanks plain && q.ignoresBlanks plain
  | .star p | .more p | .optional p | .ahead p | .absent p => p.ignoresBlanks plain

/-- The pattern starts with a quote or with the mark of a shebang line. -/
def opensVerbatim : Pattern ρ → Bool
  | .seq (.text chars) _ => chars.contains '"' || chars.contains '\'' || chars == ['#', '!']
  | _ => false

end Pattern

namespace Grammar

variable {g : Grammar ρ}

theorem Evaluates.of_opensVerbatim (g : Grammar ρ) (m : Mode) {p : Pattern ρ} {c : Cursor}
    (hp : p.opensVerbatim) (hc : IsBare c.rest) : Evaluates g m p c none := by
  unfold Pattern.opensVerbatim at hp
  split at hp
  · next chars q =>
    refine .noFirst (.noText ?_)
    cases hstrip : c.strip? chars with
    | none => rfl
    | some d =>
      have hrest := (Cursor.strip?_passes hstrip).rest_eq
      have hmem : ∀ x ∈ chars, x ∈ c.rest := fun x hx => hrest ▸ List.mem_append_left _ hx
      simp only [Bool.or_eq_true, List.contains_iff_mem, beq_iff_eq] at hp
      rcases hp with (hquote | hquote) | hmark
      · exact absurd (hmem _ hquote) hc.quote
      · exact absurd (hmem _ hquote) hc.apostrophe
      · refine absurd ?_ hc.shebang
        rw [hrest, ← hmark]
        exact (List.prefix_append _ _).isInfix
  · cases hp

/-- Where no layout is skipped, the same text stands between both pairs of places. -/
def Together (m : Mode) (c c' d d' : Cursor) : Prop :=
  m.kind ≠ .normal → ∃ u, c.Passes u d ∧ c'.Passes u d'

theorem Together.refl (m : Mode) (c c' : Cursor) : Together m c c' c c' :=
  fun _ => ⟨[], .refl c, .refl c'⟩

theorem Together.trans {m : Mode} {c c' d d' e e' : Cursor} (h : Together m c c' d d')
    (h' : Together m d d' e e') : Together m c c' e e' := by
  intro hkind
  obtain ⟨u, hu, hu'⟩ := h hkind
  obtain ⟨v, hv, hv'⟩ := h' hkind
  exact ⟨u ++ v, hu.trans hv, hu'.trans hv'⟩

theorem Together.between (m : Mode) (c c' : Cursor) :
    Together m c c' (between m c) (between m c') := by
  intro hkind
  rw [between_of_kind hkind, between_of_kind hkind]
  exact ⟨[], .refl c, .refl c'⟩

/-- Results at two places: both fail, or both leave trees that differ in their spans only and stop
in front of texts alongside each other. -/
inductive Matched (m : Mode) (c c' : Cursor) :
    Option (List (ParseTree ρ) × Cursor) → Option (List (ParseTree ρ) × Cursor) → Prop
  | fail : Matched m c c' none none
  | agree {ts us d d'} : ts.map ParseTree.erase = us.map ParseTree.erase →
      Alongside d.rest d'.rest → Together m c c' d d' → Matched m c c' (some (ts, d)) (some (us, d'))

theorem between_alongside (m : Mode) {c c' : Cursor} (h : Alongside c.rest c'.rest)
    (hc : IsBare c.rest) (hc' : IsBare c'.rest) :
    Alongside (between m c).rest (between m c').rest := by
  unfold between
  split
  · rw [Cursor.skipLayout_of_isBare hc, Cursor.skipLayout_of_isBare hc']
    exact .skipBlanks h.chunks_all_eq
  · exact h

theorem Evaluates.isBare {m : Mode} {p : Pattern ρ} {c d : Cursor} {ts : List (ParseTree ρ)}
    (h : Evaluates g m p c (some (ts, d))) (hc : IsBare c.rest) : IsBare d.rest := by
  obtain ⟨u, hu⟩ := h.passes _ _ rfl
  exact hu.isBare hc

theorem between_isBare (m : Mode) {c : Cursor} (hc : IsBare c.rest) : IsBare (between m c).rest := by
  obtain ⟨v, hv⟩ := between_passes m c
  exact hv.isBare hc

/-- Only an atomic rule keeps its text, and it goes over the same text at both places. -/
theorem erase_kept_of_together {m : Mode} {r : ρ} {c c' d d' : Cursor}
    {inner inner' : List (ParseTree ρ)} (h : Together (g.modes m r).2 c c' d d')
    (hinner : inner.map ParseTree.erase = inner'.map ParseTree.erase) :
    (g.kept m r c d inner).map ParseTree.erase = (g.kept m r c' d' inner').map ParseTree.erase := by
  by_cases hkind : g.kind r = .atomic
  · have hinside : (g.modes m r).2.kind ≠ .normal := by simp [modes, hkind]
    obtain ⟨u, hu, hu'⟩ := h hinside
    exact erase_kept hu hu' hinner
  · have htree (c d : Cursor) (inner : List (ParseTree ρ)) :
        (g.treeOf r c d inner).erase = .node r ⟨0, 0⟩ (inner.map ParseTree.erase) := by
      unfold treeOf
      split
      · next hatomic => exact absurd hatomic hkind
      · rw [ParseTree.erase, ParseTree.eraseAll_eq_map]
    unfold kept
    split
    · rw [List.map_singleton, List.map_singleton, htree, htree, hinner]
    · rfl

theorem Together.of_rule {m : Mode} {r : ρ} {c c' d d' : Cursor}
    (h : Together (g.modes m r).2 c c' d d') : Together m c c' d d' :=
  fun hkind => h (modes_kind_ne_normal hkind)

/-- At places alongside each other a pattern that asks for no blank does the same. -/
theorem Evaluates.relaid {plain : ρ → Bool}
    (hg : ∀ r, plain r → (g.body r).ignoresBlanks plain ∨ (g.body r).opensVerbatim) {m : Mode}
    {p : Pattern ρ} {c : Cursor} {result : Option (List (ParseTree ρ) × Cursor)}
    (h : Evaluates g m p c result) (hp : p.ignoresBlanks plain) {c' : Cursor}
    (hc : Alongside c.rest c'.rest) (hb : IsBare c.rest) (hb' : IsBare c'.rest) :
    ∃ result', Evaluates g m p c' result' ∧ Matched m c c' result result' := by
  induction h generalizing c' with
  | @text m chars c d h =>
    obtain ⟨d', hd', hrest⟩ := Cursor.strip?_alongside hp hc h
    exact ⟨_, .text hd', .agree rfl hrest fun _ =>
      ⟨chars, Cursor.strip?_passes h, Cursor.strip?_passes hd'⟩⟩
  | noText h => exact ⟨_, .noText (Cursor.strip?_alongside_none hp hc h), .fail⟩
  | @char m cls index x rest h =>
    obtain ⟨index', rest'⟩ := c'
    obtain ⟨v, rfl, hrest⟩ := hc.cons (CharClass.isVisible_of_accepts (of_decide_eq_true hp) h)
    exact ⟨_, .char h, .agree rfl hrest fun _ => ⟨[x], .step, .step⟩⟩
  | @noChar m cls c h =>
    refine ⟨_, .noChar fun x rest hrest hx => ?_, .fail⟩
    have hvisible := CharClass.isVisible_of_accepts (of_decide_eq_true hp) hx
    obtain ⟨v, heq, -⟩ := (hrest ▸ hc.symm).cons hvisible
    exact h x v heq hx
  | start | noStart | stop | noStop => cases hp
  | @rule m r c inner d h ih =>
    rcases hg r hp with hbody | hverbatim
    · obtain ⟨_, h', hmatched⟩ := ih hbody hc hb hb'
      cases hmatched with
      | agree hinner hd htogether =>
        exact ⟨_, .rule h', .agree (erase_kept_of_together htogether hinner) hd htogether.of_rule⟩
    · cases h.unique (.of_opensVerbatim g _ hverbatim hb)
  | @noRule m r c h ih =>
    rcases hg r hp with hbody | hverbatim
    · obtain ⟨_, h', hmatched⟩ := ih hbody hc hb hb'
      cases hmatched
      exact ⟨_, .noRule h', .fail⟩
    · exact ⟨_, .noRule (.of_opensVerbatim g _ hverbatim hb'), .fail⟩
  | @seq m p q c d e ts us h _ ih ih' =>
    obtain ⟨hp, hq⟩ := Bool.and_eq_true_iff.mp hp
    obtain ⟨_, h₁, hmatched⟩ := ih hp hc hb hb'
    cases hmatched with
    | @agree _ ts' _ d' hts hd htogether =>
      have hnext := between_alongside m hd (h.isBare hb) (h₁.isBare hb')
      obtain ⟨_, h₂, hmatched⟩ := ih' hq hnext (between_isBare m (h.isBare hb))
        (between_isBare m (h₁.isBare hb'))
      cases hmatched with
      | agree hus he htogether' =>
        exact ⟨_, .seq h₁ h₂, .agree (by rw [List.map_append, List.map_append, hts, hus]) he
          ((htogether.trans (.between m d d')).trans htogether')⟩
  | noFirst _ ih =>
    obtain ⟨hp, -⟩ := Bool.and_eq_true_iff.mp hp
    obtain ⟨_, h₁, hmatched⟩ := ih hp hc hb hb'
    cases hmatched
    exact ⟨_, .noFirst h₁, .fail⟩
  | @noSecond m p q c d ts h _ ih ih' =>
    obtain ⟨hp, hq⟩ := Bool.and_eq_true_iff.mp hp
    obtain ⟨_, h₁, hmatched⟩ := ih hp hc hb hb'
    cases hmatched with
    | agree _ hd _ =>
      have hnext := between_alongside m hd (h.isBare hb) (h₁.isBare hb')
      obtain ⟨_, h₂, hmatched⟩ := ih' hq hnext (between_isBare m (h.isBare hb))
        (between_isBare m (h₁.isBare hb'))
      cases hmatched
      exact ⟨_, .noSecond h₁ h₂, .fail⟩
  | first _ ih =>
    obtain ⟨hp, -⟩ := Bool.and_eq_true_iff.mp hp
    obtain ⟨_, h₁, hmatched⟩ := ih hp hc hb hb'
    cases hmatched with
    | agree hts hd htogether => exact ⟨_, .first h₁, .agree hts hd htogether⟩
  | second _ _ ih ih' =>
    obtain ⟨hp, hq⟩ := Bool.and_eq_true_iff.mp hp
    obtain ⟨_, h₁, hmatched⟩ := ih hp hc hb hb'
    cases hmatched
    obtain ⟨result', h₂, hmatched⟩ := ih' hq hc hb hb'
    exact ⟨result', .second h₁ h₂, hmatched⟩
  | star h _ ih ih' =>
    obtain ⟨_, h₁, hmatched⟩ := ih hp hc hb hb'
    cases hmatched with
    | agree hts hd htogether =>
      obtain ⟨_, h₂, hmatched⟩ := ih' hp hd (h.isBare hb) (h₁.isBare hb')
      cases hmatched with
      | agree hus he htogether' =>
        exact ⟨_, .star h₁ h₂, .agree (by rw [List.map_append, List.map_append, hts, hus]) he
          (htogether.trans htogether')⟩
  | @noStar m p c _ ih =>
    obtain ⟨_, h₁, hmatched⟩ := ih hp hc hb hb'
    cases hmatched
    exact ⟨_, .noStar h₁, .agree rfl hc (.refl m c c')⟩
  | @more m p c ts d us e h _ ih ih' =>
    have hnext := between_alongside m hc hb hb'
    have hbare := between_isBare m hb
    have hbare' := between_isBare m hb'
    obtain ⟨_, h₁, hmatched⟩ := ih hp hnext hbare hbare'
    cases hmatched with
    | agree hts hd htogether =>
      obtain ⟨_, h₂, hmatched⟩ := ih' hp hd (h.isBare hbare) (h₁.isBare hbare')
      cases hmatched with
      | agree hus he htogether' =>
        exact ⟨_, .more h₁ h₂, .agree (by rw [List.map_append, List.map_append, hts, hus]) he
          (((Together.between m c c').trans htogether).trans htogether')⟩
  | @noMore m p c _ ih =>
    obtain ⟨_, h₁, hmatched⟩ := ih hp (between_alongside m hc hb hb') (between_isBare m hb)
      (between_isBare m hb')
    cases hmatched
    exact ⟨_, .noMore h₁, .agree rfl hc (.refl m c c')⟩
  | optional _ ih =>
    obtain ⟨_, h₁, hmatched⟩ := ih hp hc hb hb'
    cases hmatched with
    | agree hts hd htogether => exact ⟨_, .optional h₁, .agree hts hd htogether⟩
  | @noOptional m p c _ ih =>
    obtain ⟨_, h₁, hmatched⟩ := ih hp hc hb hb'
    cases hmatched
    exact ⟨_, .noOptional h₁, .agree rfl hc (.refl m c c')⟩
  | @ahead m p c ts d _ ih =>
    obtain ⟨_, h₁, hmatched⟩ := ih hp hc hb hb'
    cases hmatched
    exact ⟨_, .ahead h₁, .agree rfl hc (.refl m c c')⟩
  | noAhead _ ih =>
    obtain ⟨_, h₁, hmatched⟩ := ih hp hc hb hb'
    cases hmatched
    exact ⟨_, .noAhead h₁, .fail⟩
  | @absent m p c _ ih =>
    obtain ⟨_, h₁, hmatched⟩ := ih hp hc hb hb'
    cases hmatched
    exact ⟨_, .absent h₁, .agree rfl hc (.refl m c c')⟩
  | noAbsent _ ih =>
    obtain ⟨_, h₁, hmatched⟩ := ih hp hc hb hb'
    cases hmatched
    exact ⟨_, .noAbsent h₁, .fail⟩

end Grammar

end QuovaKotlin.Peg

namespace QuovaKotlin.Source

open Peg Peg.Grammar Peg.Layout Reading
open Peg.ParseTree (Alike)

/-- All rules but those for whole files and for the end of the input. -/
def isPlain (r : Rule) : Bool :=
  r ≠ .quovaFile && r ≠ .endOfInput

theorem grammar_ignoresBlanks (r : Rule) (hr : isPlain r) :
    (grammar.body r).ignoresBlanks isPlain ∨ (grammar.body r).opensVerbatim := by
  have hall : Rule.list.all fun r =>
      isPlain r → (grammar.body r).ignoresBlanks isPlain ∨ (grammar.body r).opensVerbatim := by
    decide +kernel
  exact of_decide_eq_true (List.all_eq_true.mp hall r (mem_rules r)) hr

/-- Both results are failures, or both leave trees that differ in their spans only. -/
inductive SameTrees :
    Option (List Node × Cursor) → Option (List Node × Cursor) → Prop
  | fail : SameTrees none none
  | agree {ts us d d'} : ts.map ParseTree.erase = us.map ParseTree.erase →
      SameTrees (some (ts, d)) (some (us, d'))

/-- The pattern does the same at settled places alongside each other. -/
def Follows (p : Pattern Rule) : Prop :=
  ∀ ⦃c c' : Cursor⦄ ⦃result⦄, Evaluates grammar {} p c result → Alongside c.rest c'.rest →
    IsSettled c.rest → IsSettled c'.rest → IsBare c.rest → IsBare c'.rest →
    ∃ result', Evaluates grammar {} p c' result' ∧ SameTrees result result'

theorem follows_endOfInput : Follows (.rule .endOfInput) := by
  intro c c' result h hc hsettled hsettled' _ _
  have hend := hc.eq_nil_iff hsettled hsettled'
  cases h with
  | rule h =>
    cases h with
    | stop h => exact ⟨_, .rule (.stop (hend.mp h)), .agree rfl⟩
  | noRule h =>
    cases h with
    | noStop h => exact ⟨_, .noRule (.noStop fun h' => h (hend.mpr h')), .fail⟩

theorem between_isSettled {c : Cursor} (hc : IsBare c.rest) : IsSettled (between {} c).rest := by
  have hrest : (between {} c).rest = c.rest.dropWhile isBlank := Cursor.skipLayout_of_isBare hc
  rw [hrest]
  exact isSettled_dropWhile c.rest

/-- Behind a plain pattern layout is skipped, so what follows is reached at a settled place. -/
theorem Follows.seq {p q : Pattern Rule} (hp : p.ignoresBlanks isPlain) (hq : Follows q) :
    Follows (.seq p q) := by
  intro c c' result h hc _ _ hb hb'
  have hfirst {result} (h : Evaluates grammar {} p c result) :=
    h.relaid grammar_ignoresBlanks hp hc hb hb'
  have hsecond {d d' : Cursor} {result} (h : Evaluates grammar {} q (between {} d) result)
      (hd : Alongside d.rest d'.rest) (hbare : IsBare d.rest) (hbare' : IsBare d'.rest) :=
    hq h (between_alongside {} hd hbare hbare') (between_isSettled hbare)
      (between_isSettled hbare') (between_isBare {} hbare) (between_isBare {} hbare')
  cases h with
  | seq h h' =>
    obtain ⟨_, h₁, hmatched⟩ := hfirst h
    cases hmatched with
    | agree hts hd _ =>
      obtain ⟨_, h₂, hsame⟩ := hsecond h' hd (h.isBare hb) (h₁.isBare hb')
      cases hsame with
      | agree hus =>
        exact ⟨_, .seq h₁ h₂, .agree (by rw [List.map_append, List.map_append, hts, hus])⟩
  | noFirst h =>
    obtain ⟨_, h₁, hmatched⟩ := hfirst h
    cases hmatched
    exact ⟨_, .noFirst h₁, .fail⟩
  | noSecond h h' =>
    obtain ⟨_, h₁, hmatched⟩ := hfirst h
    cases hmatched with
    | agree _ hd _ =>
      obtain ⟨_, h₂, hsame⟩ := hsecond h' hd (h.isBare hb) (h₁.isBare hb')
      cases hsame
      exact ⟨_, .noSecond h₁ h₂, .fail⟩

/-- All of a file behind the start of the input. -/
theorem follows_file {p : Pattern Rule} (h : grammar.body .quovaFile = .seq .start p) :
    Follows p := by
  cases h
  exact .seq (by decide +kernel) (.seq (by decide +kernel) (.seq (by decide +kernel)
    (.seq (by decide +kernel) follows_endOfInput)))

section

variable {text text' : String} (h : IsBare text.toList) (h' : IsBare text'.toList)
  (hchunks : chunks text.toList = chunks text'.toList)

include h h' hchunks

/-- Bare texts with the same chunks are matched alike or refused alike. -/
theorem evaluates_file {result : Option (List Node × Cursor)}
    (heval : Evaluates grammar {} (.rule .quovaFile) ⟨0, text.toList⟩ result) :
    ∃ result', Evaluates grammar {} (.rule .quovaFile) ⟨0, text'.toList⟩ result' ∧
      SameTrees result result' := by
  have halongside : Alongside (between {} ⟨0, text.toList⟩).rest
      (between {} ⟨0, text'.toList⟩).rest := by
    have hskip := Alongside.skipBlanks hchunks
    rwa [← Cursor.skipLayout_of_isBare (c := ⟨0, text.toList⟩) h,
      ← Cursor.skipLayout_of_isBare (c := ⟨0, text'.toList⟩) h'] at hskip
  have hbehind {result} (heval : Evaluates grammar {} _ (between {} ⟨0, text.toList⟩) result) :=
    follows_file rfl heval halongside (between_isSettled h) (between_isSettled h')
      (between_isBare {} h) (between_isBare {} h')
  cases heval with
  | rule heval =>
    cases heval with
    | seq hstart heval =>
      cases hstart
      obtain ⟨_, heval', hsame⟩ := hbehind heval
      cases hsame with
      | agree hts =>
        have hnormal {d d' : Cursor} : Together (grammar.modes {} .quovaFile).2
            ⟨0, text.toList⟩ ⟨0, text'.toList⟩ d d' := fun hkind => absurd rfl hkind
        exact ⟨_, .rule (.seq (.start rfl) heval'), .agree (erase_kept_of_together hnormal hts)⟩
  | noRule heval =>
    cases heval with
    | noFirst hstart =>
      cases hstart with
      | noStart hindex => exact absurd rfl hindex
    | noSecond hstart heval =>
      cases hstart
      obtain ⟨_, heval', hsame⟩ := hbehind heval
      cases hsame
      exact ⟨_, .noRule (.noSecond (.start rfl) heval'), .fail⟩

theorem accepts_of_chunks {tree : Node} (haccepts : grammar.Accepts .quovaFile text tree) :
    ∃ tree', grammar.Accepts .quovaFile text' tree' ∧ Alike tree tree' := by
  obtain ⟨d, heval⟩ := haccepts
  obtain ⟨_, heval', hsame⟩ := evaluates_file h h' hchunks heval
  cases hsame with
  | agree hts =>
    cases heval' with
    | rule hbody => exact ⟨_, ⟨_, .rule hbody⟩, List.head_eq_of_cons_eq hts⟩

theorem refuses_of_chunks (hrefuses : grammar.Refuses .quovaFile text) :
    grammar.Refuses .quovaFile text' := by
  obtain ⟨_, heval', hsame⟩ := evaluates_file h h' hchunks hrefuses
  cases hsame
  exact heval'

/-- What a bare text is read as, every bare text with the same chunks is read as. -/
theorem parse_ok_of_chunks {file : Ast.SourceFile} (hparse : parse text = .ok file) :
    parse text' = .ok file := by
  obtain ⟨tree, haccepts, hread⟩ := parse_eq_ok_iff.mp hparse
  obtain ⟨tree', haccepts', halike⟩ := accepts_of_chunks h h' hchunks haccepts
  exact parse_eq_ok_iff.mpr ⟨tree', haccepts', carries_file halike hread⟩

end

/-- Layout does not matter: two texts without quotes, comments and shebang lines that fall into the
same chunks between their blanks have the same syntax tree, or both have none for the same kind of
reason. -/
theorem parse_of_same_chunks {text text' : String} (h : IsBare text.toList)
    (h' : IsBare text'.toList) (hchunks : chunks text.toList = chunks text'.toList) :
    (∃ file, parse text = .ok file ∧ parse text' = .ok file) ∨
      ∃ problem problem', parse text = .error problem ∧ parse text' = .error problem' ∧
        problem.kind = problem'.kind := by
  rcases parse_cases text with ⟨hrefuses, offset, expectation, hparse⟩ | ⟨tree, haccepts, hread⟩
  · have hrefuses' := refuses_of_chunks h h' hchunks hrefuses
    rcases parse_cases text' with ⟨-, offset', expectation', hparse'⟩ | ⟨tree', haccepts', -⟩
    · exact .inr ⟨_, _, hparse, hparse', rfl⟩
    · exact absurd hrefuses' haccepts'.not_refuses
  · rcases hread with ⟨-, construct, range, hparse⟩ | ⟨-, file, hparse⟩
    · obtain ⟨tree', haccepts', -⟩ := accepts_of_chunks h h' hchunks haccepts
      rcases parse_cases text' with ⟨hrefuses', -⟩ | ⟨_, -, hread'⟩
      · exact absurd hrefuses' haccepts'.not_refuses
      · rcases hread' with ⟨-, construct', range', hparse'⟩ | ⟨-, file, hparse'⟩
        · exact .inr ⟨_, _, hparse, hparse', rfl⟩
        · rw [parse_ok_of_chunks h' h hchunks.symm hparse'] at hparse
          cases hparse
    · exact .inl ⟨file, hparse, parse_ok_of_chunks h h' hchunks hparse⟩

/-- The tree of `int x = y;` -/
def initializedTree : Node :=
  .node .quovaFile ⟨0, 10⟩ [
    .node .declaration ⟨0, 10⟩ [
      .node .propertyDeclaration ⟨0, 10⟩ [
        .node .typeOrVar ⟨0, 4⟩ [
          .node .typeUse ⟨0, 4⟩ [
            .node .primitiveType ⟨0, 4⟩ [.token .primitiveTypeNoArray ⟨0, 3⟩ "int"]]],
        .node .property ⟨4, 9⟩ [
          .token .simpleIdentifier ⟨4, 5⟩ "x",
          .node .propertyValue ⟨6, 9⟩ [
            .node .expression ⟨8, 9⟩ [
              .node .operatorExpression ⟨8, 9⟩ [.token .simpleIdentifier ⟨8, 9⟩ "y"]]]]]],
    .node .endOfInput ⟨10, 10⟩ []]

def initializedFile : Ast.SourceFile where
  shebang := none
  package := none
  imports := [.standardLibrary, .integerAlias]
  declarations :=
    [.property ⟨[], .internalAccess, none, [], some ⟨.primitive ⟨.int, false⟩, 0, false⟩,
      [⟨"x", some (.identifier "y"), none, none, none⟩]⟩]

theorem parse_initialized : parse "int x = y;" = .ok initializedFile :=
  parse_of_toOption initializedTree (by decide +kernel) rfl

theorem initialized_on_three_lines :
    IsBare "int x = y;".toList ∧ IsBare "\nint\t x\r\n  = \n y; ".toList ∧
    chunks "int x = y;".toList = chunks "\nint\t x\r\n  = \n y; ".toList ∧
    parse "int x = y;" = .ok initializedFile ∧
    parse "\nint\t x\r\n  = \n y; " = .ok initializedFile := by
  have h : IsBare "int x = y;".toList := by decide +kernel
  have h' : IsBare "\nint\t x\r\n  = \n y; ".toList := by decide +kernel
  have hchunks : chunks "int x = y;".toList = chunks "\nint\t x\r\n  = \n y; ".toList := by
    decide +kernel
  refine ⟨h, h', hchunks, parse_initialized, ?_⟩
  rcases parse_of_same_chunks h h' hchunks with ⟨file, hparse, hparse'⟩ | ⟨_, _, hparse, -⟩
  · rw [parse_initialized] at hparse
    cases hparse
    exact hparse'
  · rw [parse_initialized] at hparse
    cases hparse

end QuovaKotlin.Source

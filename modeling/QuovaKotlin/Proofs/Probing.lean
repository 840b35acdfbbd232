import QuovaKotlin.Proofs.Placement
import QuovaKotlin.Proofs.Terms

/-!
# Foretelling matches

What a pattern does is often plain from the first characters or words in front of it, whatever
follows them. `probe` runs a grammar on such partial knowledge and may end without an answer; an
answer that it gives is the right one for every input of which the knowledge is true.
-/

set_option autoImplicit false

namespace QuovaKotlin.Peg

/-- What is foretold of a match. -/
inductive Probe (α : Type)
  | fails
  /-- The pattern matches, and this is known of what follows the match. -/
  | passes (known : α)
  | unknown
  deriving DecidableEq

namespace Probe

variable {α : Type}

def andThen : Probe α → (α → Probe α) → Probe α
  | fails, _ => fails
  | passes k, next => next k
  | unknown, _ => unknown

def orElse : Probe α → Probe α → Probe α
  | fails, other => other
  | passes k, _ => passes k
  | unknown, _ => unknown

/-- The verdict on a pattern that must not match; nothing is consumed. -/
def inverse (k : α) : Probe α → Probe α
  | fails => passes k
  | passes _ => fails
  | unknown => unknown

end Probe

namespace Grammar

variable {ρ α : Type}

/-- Runs a pattern on what is known of the input. `atom` has the first word on every pattern. -/
def probe (g : Grammar ρ) (atom : Pattern ρ → α → Option (Probe α)) :
    Nat → Pattern ρ → α → Probe α
  | 0, _, _ => .unknown
  | fuel + 1, p, k =>
    match atom p k, p with
    | some verdict, _ => verdict
    | none, .rule r => g.probe atom fuel (g.body r) k
    | none, .seq p q => (g.probe atom fuel p k).andThen (g.probe atom fuel q)
    | none, .choice p q => (g.probe atom fuel p k).orElse (g.probe atom fuel q k)
    | none, .star p | none, .more p =>
      ((g.probe atom fuel p k).andThen (g.probe atom fuel (.more p))).orElse (.passes k)
    | none, .optional p => (g.probe atom fuel p k).orElse (.passes k)
    | none, .ahead p => (g.probe atom fuel p k).andThen fun _ => .passes k
    | none, .absent p => (g.probe atom fuel p k).inverse k
    | none, _ => .unknown

/-- A verdict is right at a place. -/
def Foretells (g : Grammar ρ) (Knows : α → Cursor → Prop) (m : Mode) (p : Pattern ρ) (c : Cursor) :
    Probe α → Prop
  | .fails => Evaluates g m p c none
  | .passes k => ∃ ts d, Evaluates g m p c (some (ts, d)) ∧ Knows k (between m d)
  | .unknown => True

/-- Knowledge that `probe` may use: what `atom` says of it is right in the modes that suit it. -/
structure Trusted (g : Grammar ρ) (atom : Pattern ρ → α → Option (Probe α))
    (Knows : α → Cursor → Prop) (Suits : Mode → Prop) : Prop where
  settled : ∀ {m k c}, Suits m → Knows k c → between m c = c
  lookahead : ∀ {m} l, Suits m → Suits { m with lookahead := l }
  rule : ∀ {m r k}, Suits m → atom (.rule r) k = none →
    Suits (g.modes m r).2 ∧ ∀ d, between (g.modes m r).2 d = between m d
  atom : ∀ {m p k c verdict}, Suits m → Knows k c → atom p k = some verdict →
    Foretells g Knows m p c verdict

section

variable {g : Grammar ρ} {Knows : α → Cursor → Prop} {m : Mode} {p q : Pattern ρ} {c : Cursor}
  {k : α} {verdict other : Probe α} {next : α → Probe α}

theorem foretells_seq (hp : Foretells g Knows m p c verdict)
    (hq : ∀ k d, Knows k d → Foretells g Knows m q d (next k)) :
    Foretells g Knows m (.seq p q) c (verdict.andThen next) := by
  cases verdict with
  | fails => exact .noFirst hp
  | unknown => trivial
  | passes k =>
    obtain ⟨ts, d, heval, hknows⟩ := hp
    have hnext := hq k _ hknows
    rw [Probe.andThen]
    cases hverdict : next k with
    | fails =>
      rw [hverdict] at hnext
      exact .noSecond heval hnext
    | unknown => trivial
    | passes k' =>
      rw [hverdict] at hnext
      obtain ⟨us, e, heval', hknows'⟩ := hnext
      exact ⟨_, e, .seq heval heval', hknows'⟩

theorem foretells_choice (hp : Foretells g Knows m p c verdict)
    (hq : Foretells g Knows m q c other) :
    Foretells g Knows m (.choice p q) c (verdict.orElse other) := by
  cases verdict with
  | fails =>
    rw [Probe.orElse]
    cases other with
    | fails => exact .second hp hq
    | unknown => trivial
    | passes k =>
      obtain ⟨ts, d, heval, hknows⟩ := hq
      exact ⟨ts, d, .second hp heval, hknows⟩
  | unknown => trivial
  | passes k =>
    obtain ⟨ts, d, heval, hknows⟩ := hp
    exact ⟨ts, d, .first heval, hknows⟩

theorem not_evaluates_more : ¬ Evaluates g m (.more p) c none :=
  nofun

/-- Layout in front of a further round makes no difference. -/
theorem foretells_more {d : Cursor} (hd : between m (between m d) = between m d)
    (h : Foretells g Knows m (.more p) (between m d) verdict) :
    Foretells g Knows m (.more p) d verdict := by
  cases verdict with
  | fails => exact absurd h not_evaluates_more
  | unknown => trivial
  | passes k =>
    obtain ⟨ts, e, heval, hknows⟩ := h
    cases heval with
    | more hround hrest =>
      rw [hd] at hround
      exact ⟨_, e, .more hround hrest, hknows⟩
    | noMore hround =>
      rw [hd] at hround hknows
      exact ⟨[], d, .noMore hround, hknows⟩

theorem foretells_repeat (hc : between m c = c) (hk : Knows k c)
    (hp : Foretells g Knows m p c verdict)
    (hmore : ∀ k d, Knows k (between m d) → Foretells g Knows m (.more p) d (next k)) :
    Foretells g Knows m (.star p) c ((verdict.andThen next).orElse (.passes k)) ∧
      Foretells g Knows m (.more p) c ((verdict.andThen next).orElse (.passes k)) := by
  have hp' : Foretells g Knows m p (between m c) verdict := by rwa [hc]
  cases verdict with
  | fails => exact ⟨⟨[], c, .noStar hp, by rwa [hc]⟩, [], c, .noMore hp', by rwa [hc]⟩
  | unknown => exact ⟨trivial, trivial⟩
  | passes k' =>
    obtain ⟨ts, d, heval, hknows⟩ := hp
    have hnext := hmore k' d hknows
    rw [Probe.andThen]
    cases hverdict : next k' with
    | fails =>
      rw [hverdict] at hnext
      exact absurd hnext not_evaluates_more
    | unknown => exact ⟨trivial, trivial⟩
    | passes k'' =>
      rw [hverdict] at hnext
      obtain ⟨us, e, heval', hknows'⟩ := hnext
      exact ⟨⟨_, e, .star heval heval', hknows'⟩, _, e, .more (by rwa [hc]) heval', hknows'⟩

theorem foretells_optional (hc : between m c = c) (hk : Knows k c)
    (hp : Foretells g Knows m p c verdict) :
    Foretells g Knows m (.optional p) c (verdict.orElse (.passes k)) := by
  cases verdict with
  | fails => exact ⟨[], c, .noOptional hp, by rwa [hc]⟩
  | unknown => trivial
  | passes k' =>
    obtain ⟨ts, d, heval, hknows⟩ := hp
    exact ⟨ts, d, .optional heval, hknows⟩

theorem foretells_ahead (hc : between m c = c) (hk : Knows k c)
    (hp : Foretells g Knows { m with lookahead := m.lookahead.enter } p c verdict) :
    Foretells g Knows m (.ahead p) c (verdict.andThen fun _ => .passes k) := by
  cases verdict with
  | fails => exact .noAhead hp
  | unknown => trivial
  | passes k' =>
    obtain ⟨ts, d, heval, -⟩ := hp
    exact ⟨[], c, .ahead heval, by rwa [hc]⟩

theorem foretells_absent (hc : between m c = c) (hk : Knows k c)
    (hp : Foretells g Knows { m with lookahead := m.lookahead.invert } p c verdict) :
    Foretells g Knows m (.absent p) c (verdict.inverse k) := by
  cases verdict with
  | fails => exact ⟨[], c, .absent hp, by rwa [hc]⟩
  | unknown => trivial
  | passes k' =>
    obtain ⟨ts, d, heval, -⟩ := hp
    exact .noAbsent heval

end

/-- What is foretold happens. -/
theorem probe_foretells {g : Grammar ρ} {atom : Pattern ρ → α → Option (Probe α)}
    {Knows : α → Cursor → Prop} {Suits : Mode → Prop} (h : g.Trusted atom Knows Suits)
    (fuel : Nat) {m : Mode} (p : Pattern ρ) {k : α} {c : Cursor} (hm : Suits m) (hk : Knows k c) :
    Foretells g Knows m p c (g.probe atom fuel p k) := by
  induction fuel generalizing m p k c with
  | zero => trivial
  | succ fuel ih =>
    cases hatom : atom p k with
    | some verdict =>
      have hverdict := h.atom hm hk hatom
      cases p <;> simpa only [probe, hatom] using hverdict
    | none =>
      have hc := h.settled hm hk
      have hmore : ∀ p k d, Knows k (between m d) →
          Foretells g Knows m (.more p) d (g.probe atom fuel (.more p) k) :=
        fun p k d hd => foretells_more (h.settled hm hd) (ih (.more p) hm hd)
      cases p with
      | text | char | start | stop => simp only [probe, hatom, Foretells]
      | rule r =>
        obtain ⟨hsuits, hbetween⟩ := h.rule hm hatom
        have hbody := ih (g.body r) hsuits hk
        simp only [probe, hatom]
        cases hverdict : g.probe atom fuel (g.body r) k with
        | fails =>
          rw [hverdict] at hbody
          exact .noRule hbody
        | passes k' =>
          rw [hverdict] at hbody
          obtain ⟨ts, d, heval, hknows⟩ := hbody
          rw [hbetween] at hknows
          exact ⟨_, d, .rule heval, hknows⟩
        | unknown => trivial
      | seq p q =>
        simp only [probe, hatom]
        exact foretells_seq (ih p hm hk) fun _ _ hd => ih q hm hd
      | choice p q =>
        simp only [probe, hatom]
        exact foretells_choice (ih p hm hk) (ih q hm hk)
      | star p =>
        simp only [probe, hatom]
        exact (foretells_repeat hc hk (ih p hm hk) (hmore p)).1
      | more p =>
        simp only [probe, hatom]
        exact (foretells_repeat hc hk (ih p hm hk) (hmore p)).2
      | optional p =>
        simp only [probe, hatom]
        exact foretells_optional hc hk (ih p hm hk)
      | ahead p =>
        simp only [probe, hatom]
        exact foretells_ahead hc hk (ih p (h.lookahead _ hm) hk)
      | absent p =>
        simp only [probe, hatom]
        exact foretells_absent hc hk (ih p (h.lookahead _ hm) hk)

section

variable {g : Grammar ρ} {atom : Pattern ρ → α → Option (Probe α)} {Knows : α → Cursor → Prop}
  {Suits : Mode → Prop} (h : g.Trusted atom Knows Suits) (fuel : Nat) {m : Mode} {p : Pattern ρ}
  {k : α} {c : Cursor} (hm : Suits m) (hk : Knows k c)

include h hm hk

theorem Trusted.fails (hprobe : g.probe atom fuel p k = .fails) : Evaluates g m p c none := by
  have hforetold := probe_foretells h fuel p hm hk
  rw [hprobe] at hforetold
  exact hforetold

theorem Trusted.passes {k' : α} (hprobe : g.probe atom fuel p k = .passes k') :
    ∃ ts d, Evaluates g m p c (some (ts, d)) ∧ Knows k' (between m d) := by
  have hforetold := probe_foretells h fuel p hm hk
  rw [hprobe] at hforetold
  exact hforetold

end

open Lexical (isWordChar OffWord)

def probeText (bounded : Bool) : List Char → List Char → Probe (List Char)
  | [], known => .passes known
  | x :: chars, y :: known => if x = y then probeText bounded chars known else .fails
  | x :: _, [] => if bounded && isWordChar x then .fails else .unknown

def probeChar (bounded : Bool) (cls : CharClass) : List Char → Probe (List Char)
  | y :: known => if cls.accepts y then .passes known else .fails
  | [] => if bounded && cls ≠ .any then .fails else .unknown

/-- What is foretold if the input goes on with the given characters. If they are `bounded`, then no
further character of a word follows. -/
def ofChars (bounded : Bool) : Pattern ρ → List Char → Option (Probe (List Char))
  | .text chars, known => some (probeText bounded chars known)
  | .char cls, known => some (probeChar bounded cls known)
  | _, _ => none

theorem not_accepts_of_offWord {cls : CharClass} (hcls : cls ≠ .any) {x : Char}
    (hx : ¬ isWordChar x) : ¬ cls.accepts x := by
  intro hin
  apply hx
  cases cls with
  | any => exact absurd rfl hcls
  | digit => exact Lexical.isWordChar_of_isDigit hin
  | hexDigit => exact Lexical.isWordChar_of_hexDigit hin
  | letter => exact Lexical.isWordChar_of_letter hin
  | alphanumeric => exact Lexical.isWordChar_of_alphanumeric hin

/-- Where no layout is skipped, none is skipped inside a rule. -/
theorem modes_of_kind {g : Grammar ρ} {m : Mode} (hm : m.kind ≠ .normal) (r : ρ) :
    (g.modes m r).2.kind ≠ .normal ∧ ∀ d, between (g.modes m r).2 d = between m d := by
  have hkind : (g.modes m r).2.kind ≠ .normal := by
    unfold modes
    split
    · exact hm
    · exact nofun
    · exact nofun
  exact ⟨hkind, fun d => by rw [between_of_kind hkind, between_of_kind hm]⟩

theorem strip?_of_probeText {bounded : Bool} (chars : List Char) {known : List Char} {c e : Cursor}
    (he : bounded → OffWord e.rest) (hc : c.Passes known e) :
    match probeText bounded chars known with
    | .fails => c.strip? chars = none
    | .passes known => ∃ d, c.strip? chars = some d ∧ d.Passes known e
    | .unknown => True := by
  fun_induction probeText bounded chars known generalizing c with
  | case1 known => exact ⟨c, rfl, hc⟩
  | case2 chars x known ih =>
    obtain ⟨index, rest⟩ := c
    obtain rfl : rest = x :: (known ++ e.rest) := hc.rest_eq
    have hstep : (⟨index, x :: (known ++ e.rest)⟩ : Cursor).strip? (x :: chars) =
        (⟨index + 1, known ++ e.rest⟩ : Cursor).strip? chars := by
      rw [Cursor.strip?]
      exact if_pos rfl
    rw [hstep]
    refine ih ⟨rfl, ?_⟩
    have hindex := hc.index_eq
    simp only [List.length_cons] at hindex
    simp only
    omega
  | case3 x chars y known hne =>
    rw [Cursor.strip?, hc.rest_eq]
    exact if_neg hne
  | case4 x chars hbound =>
    obtain ⟨hbounded, hx⟩ := Bool.and_eq_true_iff.mp hbound
    rw [Cursor.strip?, hc.rest_eq]
    cases hrest : e.rest with
    | nil => rfl
    | cons y rest =>
      have hy : ¬ isWordChar y := he hbounded y (by rw [hrest]; rfl)
      refine if_neg ?_
      intro hxy
      exact hy (hxy ▸ hx)
  | case5 => trivial

theorem trusted_ofChars (g : Grammar ρ) {bounded : Bool} {e : Cursor}
    (he : bounded → OffWord e.rest) :
    g.Trusted (ofChars bounded) (fun known c => c.Passes known e) (·.kind ≠ .normal) where
  settled hm _ := between_of_kind hm _
  lookahead _ hm := hm
  rule hm _ := modes_of_kind hm _
  atom {m p known c verdict} hm hc hverdict := by
    cases p with
    | text chars =>
      cases hverdict
      have hstrip := strip?_of_probeText chars he hc
      cases hprobe : probeText bounded chars known with
      | fails =>
        rw [hprobe] at hstrip
        exact .noText hstrip
      | unknown => trivial
      | passes known' =>
        rw [hprobe] at hstrip
        obtain ⟨d, hd, hpasses⟩ := hstrip
        exact ⟨[], d, .text hd, by rwa [between_of_kind hm]⟩
    | char cls =>
      cases hverdict
      cases known with
      | nil =>
        rw [probeChar]
        split
        · next hbound =>
          obtain ⟨hbounded, hcls⟩ := Bool.and_eq_true_iff.mp hbound
          refine .noChar fun x rest hrest => ?_
          apply not_accepts_of_offWord (of_decide_eq_true hcls)
          refine he hbounded x ?_
          rw [← hc.rest_eq.trans (List.nil_append _), hrest]
          rfl
        · trivial
      | cons y known =>
        obtain ⟨index, rest⟩ := c
        obtain rfl : rest = y :: (known ++ e.rest) := hc.rest_eq
        rw [probeChar]
        split
        · next hy =>
          refine ⟨[], _, .char hy, ?_⟩
          rw [between_of_kind hm]
          refine ⟨rfl, ?_⟩
          have hindex := hc.index_eq
          simp only [List.length_cons] at hindex
          simp only
          omega
        · next hy =>
          refine .noChar fun x rest hrest => ?_
          obtain ⟨rfl, -⟩ := List.cons.inj hrest
          exact hy
    | _ => cases hverdict

/-- A character that a word, but no number, starts with. -/
def isWordStart (x : Char) : Bool :=
  x.isAlpha || x == '_' || x == '$'

theorem not_isDigit_of_isWordStart {x : Char} (hx : isWordStart x) : ¬ x.isDigit := by
  simp only [isWordStart, Bool.or_eq_true, beq_iff_eq] at hx
  rcases hx with (hx | rfl) | rfl
  · exact Lexical.not_isDigit_of_letter hx
  · decide
  · decide

/-- What is foretold if the input goes on with a word. -/
def ofWordStart : Pattern ρ → Unit → Option (Probe Unit)
  | .text [], _ => some (.passes ())
  | .text (x :: _), _ => some (if isWordStart x then .unknown else .fails)
  | .char .digit, _ => some .fails
  | .char _, _ => some .unknown
  | _, _ => none

theorem trusted_ofWordStart (g : Grammar ρ) :
    g.Trusted ofWordStart (fun _ c => ∃ x rest, c.rest = x :: rest ∧ isWordStart x)
      (·.kind ≠ .normal) where
  settled hm _ := between_of_kind hm _
  lookahead _ hm := hm
  rule hm _ := modes_of_kind hm _
  atom {m p known c verdict} hm hc hverdict := by
    obtain ⟨x, rest, hrest, hx⟩ := hc
    cases p with
    | text chars =>
      cases chars with
      | nil =>
        cases hverdict
        exact ⟨[], c, .text rfl, x, rest, by rw [between_of_kind hm]; exact ⟨hrest, hx⟩⟩
      | cons y chars =>
        cases hverdict
        split
        · trivial
        · next hy =>
          refine .noText ?_
          rw [Cursor.strip?, hrest]
          refine if_neg ?_
          rintro rfl
          exact hy hx
    | char cls =>
      cases cls with
      | digit =>
        cases hverdict
        refine .noChar fun y rest' hrest' => ?_
        obtain ⟨rfl, -⟩ := List.cons.inj (hrest.symm.trans hrest')
        exact not_isDigit_of_isWordStart hx
      | _ =>
        cases hverdict
        trivial
    | _ => cases hverdict

end Grammar

end QuovaKotlin.Peg

import QuovaKotlin.Proofs.ParseTrees
import QuovaKotlin.Source.Grammar

/-!
# Runs that finish

A grammar whose repeated parts consume something, and whose rules do not come back to themselves
before they have consumed something, never uses up its fuel. The source grammar is of this kind, so
a text is either matched or refused, and the parser says which.
-/

set_option autoImplicit false

namespace QuovaKotlin.Peg

variable {ρ : Type}

namespace Pattern

/-- Every match goes over a character at least, if that holds for the rules in `solid`. -/
def consumes (solid : ρ → Bool) : Pattern ρ → Bool
  | .text chars => ! chars.isEmpty
  | .char _ => true
  | .rule r => solid r
  | .seq p q => p.consumes solid || q.consumes solid
  | .choice p q => p.consumes solid && q.consumes solid
  | _ => false

/-- How deep a run goes before it has gone over a character, if `rank` says so for the rules. -/
def depth (solid : ρ → Bool) (rank : ρ → Nat) : Pattern ρ → Nat
  | .text _ | .char _ | .start | .stop => 1
  | .rule r => rank r + 1
  | .seq p q =>
    (if p.consumes solid then p.depth solid rank
      else max (p.depth solid rank) (q.depth solid rank)) + 1
  | .choice p q => max (p.depth solid rank) (q.depth solid rank) + 1
  | .star p | .more p | .optional p | .ahead p | .absent p => p.depth solid rank + 1

/-- Repeated parts consume something, and no part that is entered behind a character is deeper than
`width`. -/
def isTame (solid : ρ → Bool) (rank : ρ → Nat) (width : Nat) : Pattern ρ → Bool
  | .text _ | .char _ | .start | .stop | .rule _ => true
  | .seq p q =>
    decide (q.depth solid rank ≤ width) && p.isTame solid rank width && q.isTame solid rank width
  | .choice p q => p.isTame solid rank width && q.isTame solid rank width
  | .star p | .more p =>
    p.consumes solid && decide (p.depth solid rank < width) && p.isTame solid rank width
  | .optional p | .ahead p | .absent p => p.isTame solid rank width

theorem isTame_of_seq {solid : ρ → Bool} {rank : ρ → Nat} {width : Nat} {p q : Pattern ρ}
    (h : (Pattern.seq p q).isTame solid rank width) :
    p.isTame solid rank width ∧ q.isTame solid rank width := by
  simp only [isTame, Bool.and_eq_true] at h
  exact ⟨h.1.2, h.2⟩

theorem depth_pos (solid : ρ → Bool) (rank : ρ → Nat) (p : Pattern ρ) : 0 < p.depth solid rank := by
  cases p <;> simp [depth]

end Pattern

/-- The rules keep what `solid` and `rank` promise of them. -/
structure Grammar.Tame (g : Grammar ρ) (solid : ρ → Bool) (rank : ρ → Nat) (width : Nat) :
    Prop where
  consumes : ∀ r, solid r → (g.body r).consumes solid
  depth : ∀ r, (g.body r).depth solid rank ≤ rank r
  isTame : ∀ r, (g.body r).isTame solid rank width

theorem Cursor.Passes.length_le {c d : Cursor} {u : List Char} (h : c.Passes u d) :
    d.rest.length ≤ c.rest.length := by
  rw [h.rest_eq, List.length_append]
  omega

namespace Grammar

variable {g : Grammar ρ} {solid : ρ → Bool} {rank : ρ → Nat} {width : Nat}

theorem between_length_le (m : Mode) (c : Cursor) :
    (between m c).rest.length ≤ c.rest.length := by
  obtain ⟨v, hv⟩ := between_passes m c
  exact hv.length_le

theorem Evaluates.length_le {m : Mode} {p : Pattern ρ} {c d : Cursor} {ts : List (ParseTree ρ)}
    (h : Evaluates g m p c (some (ts, d))) : d.rest.length ≤ c.rest.length := by
  obtain ⟨u, hu⟩ := h.passes ts d rfl
  exact hu.length_le

/-- A match of a pattern that consumes leaves less input behind. -/
theorem Evaluates.length_lt (ht : g.Tame solid rank width) {m : Mode} {p : Pattern ρ} {c : Cursor}
    {result : Option (List (ParseTree ρ) × Cursor)} (h : Evaluates g m p c result)
    (hp : p.consumes solid) :
    ∀ ts d, result = some (ts, d) → d.rest.length < c.rest.length := by
  induction h with
  | start _ | stop _ | star _ _ _ _ | noStar _ _ | more _ _ _ _ | noMore _ _ | optional _ _
  | noOptional _ _ | ahead _ _ | absent _ _ => cases hp
  | noText _ | noChar _ | noStart _ | noStop _ | noRule _ _ | noFirst _ _ | noSecond _ _ _ _
  | noAhead _ _ | noAbsent _ _ =>
    rintro ts d ⟨⟩
  | @text _ chars c d h =>
    rintro ts d ⟨⟩
    have hlength := congrArg List.length (Cursor.strip?_passes h).rest_eq
    have hchars : chars ≠ [] := by simpa [Pattern.consumes] using hp
    have hpos := List.length_pos_iff.mpr hchars
    rw [List.length_append] at hlength
    omega
  | char _ =>
    rintro ts d ⟨⟩
    simp
  | rule _ ih =>
    rintro ts d ⟨⟩
    exact ih (ht.consumes _ hp) _ _ rfl
  | @seq m _ _ _ d _ _ _ h h' ih ih' =>
    rintro ts e ⟨⟩
    have hbetween := between_length_le m d
    rcases Bool.or_eq_true_iff.mp hp with hp | hp
    · have hfirst := ih hp _ _ rfl
      have hsecond := h'.length_le
      omega
    · have hfirst := h.length_le
      have hsecond := ih' hp _ _ rfl
      omega
  | first _ ih => exact ih (Bool.and_eq_true_iff.mp hp).1
  | second _ _ _ ih => exact ih (Bool.and_eq_true_iff.mp hp).2

theorem run_success {fuel : Nat} {m : Mode} {p : Pattern ρ} {c d : Cursor} {t t' : Attempts ρ}
    {ts : List (ParseTree ρ)} (h : g.run fuel m p c t = .success d ts t') :
    Evaluates g m p c (some (ts, d)) := by
  have hagrees := g.run_agrees fuel m p c t
  rwa [h] at hagrees

/-- What is entered behind a character is paid for by that character. -/
theorem fuel_behind {n n' d : Nat} (hlt : n' < n) (hd : d ≤ width) :
    width * n' + d ≤ width * n :=
  calc width * n' + d ≤ width * n' + width := Nat.add_le_add_left hd _
    _ = width * (n' + 1) := rfl
    _ ≤ width * n := Nat.mul_le_mul_left width hlt

/-- Fuel for every character that is left, and for what is done before the next one. -/
theorem run_ne_exhausted (ht : g.Tame solid rank width) (fuel : Nat) (m : Mode) (p : Pattern ρ)
    (c : Cursor) (t : Attempts ρ) (htame : p.isTame solid rank width)
    (hfuel : width * c.rest.length + p.depth solid rank ≤ fuel) :
    g.run fuel m p c t ≠ .exhausted := by
  induction fuel generalizing m p c t with
  | zero =>
    have := p.depth_pos solid rank
    omega
  | succ fuel ih =>
    cases p with
    | text chars =>
      simp only [run]
      split <;> simp
    | char cls =>
      simp only [run]
      split
      · split <;> simp
      · simp
    | start | stop =>
      simp only [run]
      split <;> simp
    | rule r =>
      have hbody := ih (g.modes m r).2 (g.body r) c t (ht.isTame r) (by
        have := ht.depth r
        simp only [Pattern.depth] at hfuel
        omega)
      simp only [run]
      split <;> simp_all
    | seq p q =>
      simp only [Pattern.isTame, Bool.and_eq_true, decide_eq_true_eq] at htame
      obtain ⟨⟨hwidth, hp⟩, hq⟩ := htame
      simp only [Pattern.depth] at hfuel
      have hfirst := ih m p c t hp (by split at hfuel <;> omega)
      simp only [run]
      cases hrun : g.run fuel m p c t with
      | exhausted => exact absurd hrun hfirst
      | failure t' => simp
      | success d ts t' =>
        have hbetween := between_length_le m d
        have hsecond := ih m q (between m d) t' hq (by
          split at hfuel
          · next hconsumes =>
            have hlt := (run_success hrun).length_lt ht hconsumes _ _ rfl
            have := fuel_behind (Nat.lt_of_le_of_lt hbetween hlt) hwidth
            omega
          · have hle := Nat.le_trans hbetween (run_success hrun).length_le
            have := Nat.mul_le_mul_left width hle
            omega)
        simp only []
        split <;> simp_all
    | choice p q =>
      simp only [Pattern.isTame, Bool.and_eq_true] at htame
      simp only [Pattern.depth] at hfuel
      have hfirst := ih m p c t htame.1 (by omega)
      simp only [run]
      cases hrun : g.run fuel m p c t with
      | exhausted => exact absurd hrun hfirst
      | success d ts t' => simp
      | failure t' => exact ih m q c t' htame.2 (by omega)
    | star p =>
      have hmore : (Pattern.more p).isTame solid rank width := htame
      simp only [Pattern.isTame, Bool.and_eq_true, decide_eq_true_eq] at htame
      obtain ⟨⟨hconsumes, hwidth⟩, hp⟩ := htame
      simp only [Pattern.depth] at hfuel
      have hfirst := ih m p c t hp (by omega)
      simp only [run]
      cases hrun : g.run fuel m p c t with
      | exhausted => exact absurd hrun hfirst
      | failure t' => simp
      | success d ts t' =>
        have hlt := (run_success hrun).length_lt ht hconsumes _ _ rfl
        have hothers := ih m (.more p) d t' hmore (by
          have := fuel_behind hlt hwidth
          simp only [Pattern.depth]
          omega)
        simp only []
        split <;> simp_all
    | more p =>
      have hmore := htame
      simp only [Pattern.isTame, Bool.and_eq_true, decide_eq_true_eq] at htame
      obtain ⟨⟨hconsumes, hwidth⟩, hp⟩ := htame
      simp only [Pattern.depth] at hfuel
      have hbetween := between_length_le m c
      have hfirst := ih m p (between m c) t hp (by
        have := Nat.mul_le_mul_left width hbetween
        omega)
      simp only [run]
      cases hrun : g.run fuel m p (between m c) t with
      | exhausted => exact absurd hrun hfirst
      | failure t' => simp
      | success d ts t' =>
        have hlt := (run_success hrun).length_lt ht hconsumes _ _ rfl
        have hothers := ih m (.more p) d t' hmore (by
          have := fuel_behind (Nat.lt_of_lt_of_le hlt hbetween) hwidth
          simp only [Pattern.depth]
          omega)
        simp only []
        split <;> simp_all
    | optional p =>
      simp only [Pattern.depth] at hfuel
      have hbody := ih m p c t htame (by omega)
      simp only [run]
      split <;> simp_all
    | ahead p =>
      simp only [Pattern.depth] at hfuel
      have hbody := ih { m with lookahead := m.lookahead.enter } p c t htame (by omega)
      simp only [run]
      split <;> simp_all
    | absent p =>
      simp only [Pattern.depth] at hfuel
      have hbody := ih { m with lookahead := m.lookahead.invert } p c t htame (by omega)
      simp only [run]
      split <;> simp_all

/-- A pattern does something at every place. -/
theorem Tame.total (ht : g.Tame solid rank width) {p : Pattern ρ}
    (hp : p.isTame solid rank width) (m : Mode) (c : Cursor) :
    ∃ result, Evaluates g m p c result := by
  have hagrees := g.run_agrees (width * c.rest.length + p.depth solid rank) m p c {}
  cases hrun : g.run (width * c.rest.length + p.depth solid rank) m p c {} with
  | success d ts t =>
    rw [hrun] at hagrees
    exact ⟨_, hagrees⟩
  | failure t =>
    rw [hrun] at hagrees
    exact ⟨_, hagrees⟩
  | exhausted => exact absurd hrun (run_ne_exhausted ht _ m p c {} hp (Nat.le_refl _))

/-- Rule `r` matches at the start of the text and leaves `tree`. -/
def Accepts (g : Grammar ρ) (r : ρ) (source : String) (tree : ParseTree ρ) : Prop :=
  ∃ d, Evaluates g {} (.rule r) ⟨0, source.toList⟩ (some ([tree], d))

/-- Rule `r` does not match at the start of the text. -/
def Refuses (g : Grammar ρ) (r : ρ) (source : String) : Prop :=
  Evaluates g {} (.rule r) ⟨0, source.toList⟩ none

theorem Accepts.unique {r : ρ} {source : String} {tree tree' : ParseTree ρ}
    (h : g.Accepts r source tree) (h' : g.Accepts r source tree') : tree = tree' := by
  obtain ⟨d, h⟩ := h
  obtain ⟨d', h'⟩ := h'
  cases h.unique h'
  rfl

theorem Accepts.not_refuses {r : ρ} {source : String} {tree : ParseTree ρ}
    (h : g.Accepts r source tree) : ¬ g.Refuses r source := by
  intro hrefuses
  obtain ⟨d, h⟩ := h
  cases h.unique hrefuses

/-- The parser decides whether a text is accepted. -/
theorem parse_decides (ht : g.Tame solid rank width) {r : ρ} (hwidth : width ≤ g.weight + 1)
    (hrank : rank r ≤ g.weight) (source : String) :
    (∃ tree, g.parse r source = .ok tree ∧ g.Accepts r source tree) ∨
      (∃ t, g.parse r source = .error t) ∧ g.Refuses r source := by
  have hfuel : width * source.toList.length + (Pattern.rule r).depth solid rank ≤
      g.fuelFor source.toList.length := by
    have := Nat.mul_le_mul_right source.toList.length hwidth
    simp only [fuelFor, Pattern.depth, Nat.mul_add, Nat.mul_one]
    omega
  have hends := run_ne_exhausted ht _ {} (.rule r) ⟨0, source.toList⟩ {} rfl hfuel
  have hagrees := g.run_agrees (g.fuelFor source.toList.length) {} (.rule r) ⟨0, source.toList⟩ {}
  simp only [parse]
  cases hrun : g.run (g.fuelFor source.toList.length) {} (.rule r) ⟨0, source.toList⟩ {} with
  | exhausted => exact absurd hrun hends
  | failure t =>
    rw [hrun] at hagrees
    exact .inr ⟨⟨t, rfl⟩, hagrees⟩
  | success d ts t =>
    rw [hrun] at hagrees
    cases hagrees with
    | @rule _ _ _ inner _ h =>
      -- Outside all lookahead and atomic rules a rule leaves a tree.
      have hkept : g.kept {} r ⟨0, source.toList⟩ d inner =
          [g.treeOf r ⟨0, source.toList⟩ d inner] := if_pos (modes_keepsTrees rfl).1
      have haccepts := Evaluates.rule h
      rw [hkept] at haccepts ⊢
      exact .inl ⟨_, rfl, d, haccepts⟩

/-- How deep a rule goes before its first character, with rules nested `levels` deep. -/
def rankWithin (g : Grammar ρ) (solid : ρ → Bool) : Nat → ρ → Nat
  | 0, _ => 0
  | levels + 1, r => (g.body r).depth solid (g.rankWithin solid levels)

/-- No chain of rules without a character between them is longer than `levels`, and no rule goes as
deep as `width`. All is computed at once, since the ranks are the greater part of the work. -/
def isMeasured (g : Grammar ρ) (solid : ρ → Bool) (levels width : Nat) : Bool :=
  g.rules.all fun r =>
    (solid r → (g.body r).consumes solid) ∧
      (g.body r).depth solid (g.rankWithin solid levels) ≤ g.rankWithin solid levels r ∧
      (g.body r).isTame solid (g.rankWithin solid levels) width ∧
      g.rankWithin solid levels r < width

theorem tame_of_isMeasured {levels : Nat} (hrules : ∀ r, r ∈ g.rules)
    (h : g.isMeasured solid levels width) :
    g.Tame solid (g.rankWithin solid levels) width ∧ ∀ r, g.rankWithin solid levels r < width := by
  have hall := fun r => of_decide_eq_true (List.all_eq_true.mp h r (hrules r))
  exact ⟨⟨fun r => (hall r).1, fun r => (hall r).2.1, fun r => (hall r).2.2.1⟩,
    fun r => (hall r).2.2.2⟩

end Grammar

end QuovaKotlin.Peg

namespace QuovaKotlin.Source

/-- Only the end of the input and an empty file go over no character. -/
def isSolid (r : Rule) : Bool :=
  r ≠ .endOfInput && r ≠ .quovaFile

def rank : Rule → Nat :=
  grammar.rankWithin isSolid 10

theorem mem_rules (r : Rule) : r ∈ grammar.rules := by
  have hplace : Rule.list[r.ctorIdx]? = some r := by
    cases r <;> rfl
  exact List.mem_of_getElem? hplace

theorem grammar_measured : grammar.Tame isSolid rank 100 ∧ ∀ r, rank r < 100 :=
  Peg.Grammar.tame_of_isMeasured mem_rules (by decide +kernel)

theorem grammar_tame : grammar.Tame isSolid rank 100 :=
  grammar_measured.1

/-- The parser decides whether a text starts with a match of a rule. -/
theorem grammar_decides (r : Rule) (text : String) :
    (∃ tree, grammar.parse r text = .ok tree ∧ grammar.Accepts r text tree) ∨
      (∃ t, grammar.parse r text = .error t) ∧ grammar.Refuses r text := by
  have hwidth : 100 ≤ grammar.weight + 1 := by
    decide +kernel
  have hrank := grammar_measured.2 r
  exact Peg.Grammar.parse_decides grammar_tame hwidth (by omega) text

end QuovaKotlin.Source

import QuovaKotlin.Peg.Run

/-!
# What a run of a grammar means

`Evaluates` is the meaning of patterns as a relation: it knows neither fuel nor attempts. Every run
that ends, ends as the relation says. The facts below that hold for all grammars (a match consumes
a part of the input and nothing else, the text of a match is spelled by its pattern) are read off
the relation.
-/

set_option autoImplicit false

namespace QuovaKotlin.Peg

variable {ρ : Type}

/-- `later` is reached from `cursor` by going on over `text`. -/
structure Cursor.Passes (cursor : Cursor) (text : List Char) (later : Cursor) : Prop where
  rest_eq : cursor.rest = text ++ later.rest
  index_eq : later.index = cursor.index + text.length

namespace Cursor.Passes

variable {c d e : Cursor} {u v : List Char}

theorem refl (c : Cursor) : c.Passes [] c :=
  ⟨rfl, rfl⟩

theorem trans (h : c.Passes u d) (h' : d.Passes v e) : c.Passes (u ++ v) e := by
  refine ⟨by rw [h.rest_eq, h'.rest_eq, List.append_assoc], ?_⟩
  rw [h'.index_eq, h.index_eq, List.length_append, Nat.add_assoc]

theorem step {index : Nat} {x : Char} {rest : List Char} :
    Cursor.Passes ⟨index, x :: rest⟩ [x] ⟨index + 1, rest⟩ :=
  ⟨rfl, rfl⟩

theorem textTo_eq (h : c.Passes u d) : c.textTo d = String.ofList u := by
  rw [Cursor.textTo, h.rest_eq, h.index_eq, Nat.add_sub_cancel_left, List.take_left]

/-- The text between two places is determined by them. -/
theorem unique (h : c.Passes u d) (h' : c.Passes v d) : u = v :=
  List.append_cancel_right (h.rest_eq.symm.trans h'.rest_eq)

end Cursor.Passes

theorem Cursor.strip?_passes {c d : Cursor} {chars : List Char} (h : c.strip? chars = some d) :
    c.Passes chars d := by
  induction chars generalizing c with
  | nil =>
    obtain rfl : c = d := by simpa [Cursor.strip?] using h
    exact .refl c
  | cons x chars ih =>
    obtain ⟨index, rest⟩ := c
    cases rest with
    | nil => simp [Cursor.strip?] at h
    | cons y rest =>
      simp only [Cursor.strip?] at h
      split at h
      · next heq =>
        subst heq
        exact Passes.step.trans (ih h)
      · cases h

/-- Skipping goes on over some text, and from an open comment it may fall back to its opening. -/
theorem Layout.skipFrom_passes (state : Layout.State) (index : Nat) (rest : List Char) :
    match state with
    | .blockComment opening =>
      ∀ u, opening.Passes u ⟨index, rest⟩ →
        ∃ v, opening.Passes v (Layout.skipFrom state index rest)
    | _ => ∃ v, Cursor.Passes ⟨index, rest⟩ v (Layout.skipFrom state index rest) := by
  fun_induction Layout.skipFrom state index rest with
  | case1 index rest ih =>
    obtain ⟨v, hv⟩ := ih
    exact ⟨_, (Cursor.Passes.step.trans .step).trans hv⟩
  | case2 index rest ih => exact ih _ (Cursor.Passes.step.trans .step)
  | case3 index c rest _ _ _ ih =>
    obtain ⟨v, hv⟩ := ih
    exact ⟨_, Cursor.Passes.step.trans hv⟩
  | case4 => exact ⟨[], .refl _⟩
  | case5 index c rest _ ih =>
    obtain ⟨v, hv⟩ := ih
    exact ⟨_, Cursor.Passes.step.trans hv⟩
  | case6 index c rest _ ih =>
    obtain ⟨v, hv⟩ := ih
    exact ⟨_, Cursor.Passes.step.trans hv⟩
  | case7 opening index rest ih =>
    intro u hu
    obtain ⟨v, hv⟩ := ih
    exact ⟨_, hu.trans ((Cursor.Passes.step.trans .step).trans hv)⟩
  | case8 opening index c rest _ ih => exact fun u hu => ih _ (hu.trans .step)
  | case9 opening => exact fun _ _ => ⟨[], .refl opening⟩
  | case10 state index hstate =>
    cases state with
    | between | lineComment => exact ⟨[], .refl _⟩
    | blockComment opening => exact absurd rfl (hstate opening)

theorem Cursor.skipLayout_passes (c : Cursor) : ∃ v, c.Passes v c.skipLayout :=
  Layout.skipFrom_passes .between c.index c.rest

namespace Grammar

theorem between_passes (m : Mode) (c : Cursor) : ∃ v, c.Passes v (between m c) := by
  unfold between
  split
  · exact c.skipLayout_passes
  · exact ⟨[], .refl c⟩

theorem between_of_kind {m : Mode} (h : m.kind ≠ .normal) (c : Cursor) : between m c = c := by
  rw [between, if_neg h]

/-- The trees that a match of rule `r` leaves behind. -/
def kept (g : Grammar ρ) (m : Mode) (r : ρ) (c d : Cursor) (inner : List (ParseTree ρ)) :
    List (ParseTree ρ) :=
  if (g.modes m r).1.keepsTrees then [g.treeOf r c d inner] else []

/-- What a pattern does at a place: it matches, with trees and the place behind the match, or it
fails. -/
inductive Evaluates (g : Grammar ρ) :
    Mode → Pattern ρ → Cursor → Option (List (ParseTree ρ) × Cursor) → Prop
  | text {m chars c d} : c.strip? chars = some d → Evaluates g m (.text chars) c (some ([], d))
  | noText {m chars c} : c.strip? chars = none → Evaluates g m (.text chars) c none
  | char {m cls index x rest} : cls.accepts x →
      Evaluates g m (.char cls) ⟨index, x :: rest⟩ (some ([], ⟨index + 1, rest⟩))
  | noChar {m cls c} : (∀ x rest, c.rest = x :: rest → ¬ cls.accepts x) →
      Evaluates g m (.char cls) c none
  | start {m c} : c.index = 0 → Evaluates g m .start c (some ([], c))
  | noStart {m c} : c.index ≠ 0 → Evaluates g m .start c none
  | stop {m c} : c.rest = [] → Evaluates g m .stop c (some ([], c))
  | noStop {m c} : c.rest ≠ [] → Evaluates g m .stop c none
  | rule {m r c inner d} : Evaluates g (g.modes m r).2 (g.body r) c (some (inner, d)) →
      Evaluates g m (.rule r) c (some (g.kept m r c d inner, d))
  | noRule {m r c} : Evaluates g (g.modes m r).2 (g.body r) c none →
      Evaluates g m (.rule r) c none
  | seq {m p q c d e ts us} : Evaluates g m p c (some (ts, d)) →
      Evaluates g m q (between m d) (some (us, e)) →
      Evaluates g m (.seq p q) c (some (ts ++ us, e))
  | noFirst {m p q c} : Evaluates g m p c none → Evaluates g m (.seq p q) c none
  | noSecond {m p q c d ts} : Evaluates g m p c (some (ts, d)) →
      Evaluates g m q (between m d) none → Evaluates g m (.seq p q) c none
  | first {m p q c ts d} : Evaluates g m p c (some (ts, d)) →
      Evaluates g m (.choice p q) c (some (ts, d))
  | second {m p q c result} : Evaluates g m p c none → Evaluates g m q c result →
      Evaluates g m (.choice p q) c result
  | star {m p c ts d us e} : Evaluates g m p c (some (ts, d)) →
      Evaluates g m (.more p) d (some (us, e)) → Evaluates g m (.star p) c (some (ts ++ us, e))
  | noStar {m p c} : Evaluates g m p c none → Evaluates g m (.star p) c (some ([], c))
  | more {m p c ts d us e} : Evaluates g m p (between m c) (some (ts, d)) →
      Evaluates g m (.more p) d (some (us, e)) → Evaluates g m (.more p) c (some (ts ++ us, e))
  | noMore {m p c} : Evaluates g m p (between m c) none →
      Evaluates g m (.more p) c (some ([], c))
  | optional {m p c ts d} : Evaluates g m p c (some (ts, d)) →
      Evaluates g m (.optional p) c (some (ts, d))
  | noOptional {m p c} : Evaluates g m p c none → Evaluates g m (.optional p) c (some ([], c))
  | ahead {m p c ts d} :
      Evaluates g { m with lookahead := m.lookahead.enter } p c (some (ts, d)) →
      Evaluates g m (.ahead p) c (some ([], c))
  | noAhead {m p c} : Evaluates g { m with lookahead := m.lookahead.enter } p c none →
      Evaluates g m (.ahead p) c none
  | absent {m p c} : Evaluates g { m with lookahead := m.lookahead.invert } p c none →
      Evaluates g m (.absent p) c (some ([], c))
  | noAbsent {m p c ts d} :
      Evaluates g { m with lookahead := m.lookahead.invert } p c (some (ts, d)) →
      Evaluates g m (.absent p) c none

/-- A pattern does one thing at a place. -/
theorem Evaluates.unique {g : Grammar ρ} {m : Mode} {p : Pattern ρ} {c : Cursor}
    {result result' : Option (List (ParseTree ρ) × Cursor)} (h : Evaluates g m p c result)
    (h' : Evaluates g m p c result') : result = result' := by
  induction h generalizing result' with
  | text h | noText h | char h | noChar h | start h | noStart h | stop h | noStop h =>
    cases h' <;> simp_all
  | rule _ ih =>
    cases h' with
    | rule h => cases ih h; rfl
    | noRule h => cases ih h
  | noRule _ ih =>
    cases h' with
    | rule h => cases ih h
    | noRule h => rfl
  | seq _ _ ih ih' =>
    cases h' with
    | seq h h' => cases ih h; cases ih' h'; rfl
    | noFirst h => cases ih h
    | noSecond h h' => cases ih h; cases ih' h'
  | noFirst _ ih =>
    cases h' with
    | seq h h' => cases ih h
    | noFirst h => rfl
    | noSecond h h' => rfl
  | noSecond _ _ ih ih' =>
    cases h' with
    | seq h h' => cases ih h; cases ih' h'
    | noFirst h => rfl
    | noSecond h h' => rfl
  | first _ ih =>
    cases h' with
    | first h => exact ih h
    | second h h' => cases ih h
  | second _ _ ih ih' =>
    cases h' with
    | first h => cases ih h
    | second h h' => exact ih' h'
  | star _ _ ih ih' =>
    cases h' with
    | star h h' => cases ih h; cases ih' h'; rfl
    | noStar h => cases ih h
  | noStar _ ih =>
    cases h' with
    | star h h' => cases ih h
    | noStar h => rfl
  | more _ _ ih ih' =>
    cases h' with
    | more h h' => cases ih h; cases ih' h'; rfl
    | noMore h => cases ih h
  | noMore _ ih =>
    cases h' with
    | more h h' => cases ih h
    | noMore h => rfl
  | optional _ ih =>
    cases h' with
    | optional h => exact ih h
    | noOptional h => cases ih h
  | noOptional _ ih =>
    cases h' with
    | optional h => cases ih h
    | noOptional h => rfl
  | ahead _ ih =>
    cases h' with
    | ahead h => rfl
    | noAhead h => cases ih h
  | noAhead _ ih =>
    cases h' with
    | ahead h => cases ih h
    | noAhead h => rfl
  | absent _ ih =>
    cases h' with
    | absent h => rfl
    | noAbsent h => cases ih h
  | noAbsent _ ih =>
    cases h' with
    | absent h => cases ih h
    | noAbsent h => rfl

/-- The outcome of a run without its attempts, unless its fuel ran out. -/
def Agrees (g : Grammar ρ) (m : Mode) (p : Pattern ρ) (c : Cursor) : Outcome ρ → Prop
  | .success d ts _ => Evaluates g m p c (some (ts, d))
  | .failure _ => Evaluates g m p c none
  | .exhausted => True

theorem run_more_ne_failure (g : Grammar ρ) (fuel : Nat) (m : Mode) (p : Pattern ρ) (c : Cursor)
    (t t' : Attempts ρ) : g.run fuel m (.more p) c t ≠ .failure t' := by
  induction fuel generalizing c t with
  | zero => simp [run]
  | succ fuel ih =>
    simp only [run]
    split
    · split
      · simp
      · intro h
        exact ih _ _ (by rw [h])
    · simp
    · simp

theorem run_agrees (g : Grammar ρ) (fuel : Nat) (m : Mode) (p : Pattern ρ) (c : Cursor)
    (t : Attempts ρ) : Agrees g m p c (g.run fuel m p c t) := by
  induction fuel generalizing m p c t with
  | zero => simp [run, Agrees]
  | succ fuel ih =>
    cases p with
    | text chars =>
      simp only [run]
      split
      · next h => exact .text h
      · next h => exact .noText h
    | char cls =>
      obtain ⟨index, rest⟩ := c
      cases rest with
      | nil => exact .noChar (by simp)
      | cons x rest =>
        simp only [run]
        split
        · next h => exact .char h
        · next h =>
          refine .noChar ?_
          rintro y rest' heq
          obtain ⟨rfl, -⟩ := List.cons.inj heq
          exact h
    | start =>
      simp only [run]
      split
      · next h => exact .start h
      · next h => exact .noStart h
    | stop =>
      simp only [run]
      split
      · next h => exact .stop (by simpa using h)
      · next h => exact .noStop (by simpa using h)
    | rule r =>
      have h := ih (g.modes m r).2 (g.body r) c t
      simp only [run]
      cases hrun : g.run fuel (g.modes m r).2 (g.body r) c t with
      | success d inner t => rw [hrun] at h; exact .rule h
      | failure t => rw [hrun] at h; exact .noRule h
      | exhausted => trivial
    | seq p q =>
      have h := ih m p c t
      simp only [run]
      cases hrun : g.run fuel m p c t with
      | success d ts t =>
        rw [hrun] at h
        have h' := ih m q (between m d) t
        simp only []
        cases hrun' : g.run fuel m q (between m d) t with
        | success e us t => rw [hrun'] at h'; exact .seq h h'
        | failure t => rw [hrun'] at h'; exact .noSecond h h'
        | exhausted => trivial
      | failure t => rw [hrun] at h; exact .noFirst h
      | exhausted => trivial
    | choice p q =>
      have h := ih m p c t
      simp only [run]
      cases hrun : g.run fuel m p c t with
      | success d ts t => rw [hrun] at h; exact .first h
      | failure t =>
        rw [hrun] at h
        have h' := ih m q c t
        simp only []
        cases hrun' : g.run fuel m q c t with
        | success e us t => rw [hrun'] at h'; exact .second h h'
        | failure t => rw [hrun'] at h'; exact .second h h'
        | exhausted => trivial
      | exhausted => trivial
    | star p =>
      have h := ih m p c t
      simp only [run]
      cases hrun : g.run fuel m p c t with
      | success d ts t =>
        rw [hrun] at h
        have h' := ih m (.more p) d t
        simp only []
        cases hrun' : g.run fuel m (.more p) d t with
        | success e us t => rw [hrun'] at h'; exact .star h h'
        | failure t => exact absurd hrun' (g.run_more_ne_failure fuel m p d _ t)
        | exhausted => trivial
      | failure t => rw [hrun] at h; exact .noStar h
      | exhausted => trivial
    | more p =>
      have h := ih m p (between m c) t
      simp only [run]
      cases hrun : g.run fuel m p (between m c) t with
      | success d ts t =>
        rw [hrun] at h
        have h' := ih m (.more p) d t
        simp only []
        cases hrun' : g.run fuel m (.more p) d t with
        | success e us t => rw [hrun'] at h'; exact .more h h'
        | failure t => exact absurd hrun' (g.run_more_ne_failure fuel m p d _ t)
        | exhausted => trivial
      | failure t => rw [hrun] at h; exact .noMore h
      | exhausted => trivial
    | optional p =>
      have h := ih m p c t
      simp only [run]
      cases hrun : g.run fuel m p c t with
      | success d ts t => rw [hrun] at h; exact .optional h
      | failure t => rw [hrun] at h; exact .noOptional h
      | exhausted => trivial
    | ahead p =>
      have h := ih { m with lookahead := m.lookahead.enter } p c t
      simp only [run]
      cases hrun : g.run fuel { m with lookahead := m.lookahead.enter } p c t with
      | success d ts t => rw [hrun] at h; exact .ahead h
      | failure t => rw [hrun] at h; exact .noAhead h
      | exhausted => trivial
    | absent p =>
      have h := ih { m with lookahead := m.lookahead.invert } p c t
      simp only [run]
      cases hrun : g.run fuel { m with lookahead := m.lookahead.invert } p c t with
      | success d ts t => rw [hrun] at h; exact .noAbsent h
      | failure t => rw [hrun] at h; exact .absent h
      | exhausted => trivial

/-- A run that ends with a match has found what the grammar says. -/
theorem evaluates_of_run {g : Grammar ρ} {m : Mode} {p : Pattern ρ} {c d : Cursor}
    {ts : List (ParseTree ρ)} (fuel : Nat)
    (h : (match g.run fuel m p c {} with
      | .success d ts _ => some (ts, d)
      | _ => none) = some (ts, d)) : Evaluates g m p c (some (ts, d)) := by
  have hagrees := g.run_agrees fuel m p c {}
  split at h
  · next hrun =>
    cases h
    rwa [hrun] at hagrees
  · cases h

/-- A parse tree comes from a match of its rule at the start of the text. -/
theorem parse_evaluates {g : Grammar ρ} {r : ρ} {source : String} {tree : ParseTree ρ}
    (h : g.parse r source = .ok tree) :
    ∃ d ts, Evaluates g {} (.rule r) ⟨0, source.toList⟩ (some (tree :: ts, d)) := by
  unfold parse at h
  have hagrees := g.run_agrees (g.fuelFor source.toList.length) {} (.rule r) ⟨0, source.toList⟩ {}
  cases hrun : g.run (g.fuelFor source.toList.length) {} (.rule r) ⟨0, source.toList⟩ {} with
  | success d ts t =>
    rw [hrun] at hagrees
    cases ts with
    | nil => simp [hrun] at h
    | cons tree' ts =>
      obtain rfl : tree' = tree := by simpa [hrun] using h
      exact ⟨d, ts, hagrees⟩
  | failure t => simp [hrun] at h
  | exhausted => simp [hrun] at h

theorem Evaluates.passes {g : Grammar ρ} {m : Mode} {p : Pattern ρ} {c : Cursor}
    {result : Option (List (ParseTree ρ) × Cursor)} (h : Evaluates g m p c result) :
    ∀ ts d, result = some (ts, d) → ∃ u, c.Passes u d := by
  induction h with
  | text h =>
    rintro ts d ⟨⟩
    exact ⟨_, Cursor.strip?_passes h⟩
  | char _ =>
    rintro ts d ⟨⟩
    exact ⟨_, .step⟩
  | start _ | stop _ | noStar _ _ | noMore _ _ | noOptional _ _ | ahead _ _ | absent _ _ =>
    rintro ts d ⟨⟩
    exact ⟨[], .refl _⟩
  | noText _ | noChar _ | noStart _ | noStop _ | noRule _ _ | noFirst _ _ | noSecond _ _ _ _
  | noAhead _ _ | noAbsent _ _ =>
    rintro ts d ⟨⟩
  | rule _ ih =>
    rintro ts d ⟨⟩
    exact ih _ _ rfl
  | @seq m _ _ _ d _ _ _ _ _ ih ih' =>
    rintro ts d ⟨⟩
    obtain ⟨u, hu⟩ := ih _ _ rfl
    obtain ⟨v, hv⟩ := between_passes m d
    obtain ⟨w, hw⟩ := ih' _ _ rfl
    exact ⟨_, (hu.trans hv).trans hw⟩
  | @more m _ c _ _ _ _ _ _ ih ih' =>
    rintro ts d ⟨⟩
    obtain ⟨u, hu⟩ := between_passes m c
    obtain ⟨v, hv⟩ := ih _ _ rfl
    obtain ⟨w, hw⟩ := ih' _ _ rfl
    exact ⟨_, (hu.trans hv).trans hw⟩
  | star _ _ ih ih' =>
    rintro ts d ⟨⟩
    obtain ⟨u, hu⟩ := ih _ _ rfl
    obtain ⟨v, hv⟩ := ih' _ _ rfl
    exact ⟨_, hu.trans hv⟩
  | first _ ih | optional _ ih =>
    rintro ts d ⟨⟩
    exact ih _ _ rfl
  | second _ _ _ ih =>
    intro ts d hresult
    exact ih _ _ hresult

end Grammar

/-- The texts of a pattern, lookahead left aside; `named` gives the texts of the rules in it. -/
def Pattern.Spells (named : ρ → List Char → Prop) : Pattern ρ → List Char → Prop
  | .text chars, w => w = chars
  | .char cls, w => ∃ x, w = [x] ∧ cls.accepts x
  | .start, w | .stop, w | .ahead _, w | .absent _, w => w = []
  | .rule r, w => named r w
  | .seq p q, w => ∃ u v, w = u ++ v ∧ p.Spells named u ∧ q.Spells named v
  | .choice p q, w => p.Spells named w ∨ q.Spells named w
  | .star p, w | .more p, w =>
    ∃ ws : List (List Char), w = ws.flatten ∧ ∀ u ∈ ws, p.Spells named u
  | .optional p, w => w = [] ∨ p.Spells named w

namespace Grammar

/-- `w` is a text that the body of rule `r` matches where no layout is skipped. -/
def Reads (g : Grammar ρ) (r : ρ) (w : List Char) : Prop :=
  ∃ (m : Mode) (c : Cursor) (ts : List (ParseTree ρ)) (d : Cursor),
    m.kind ≠ .normal ∧ Evaluates g m (g.body r) c (some (ts, d)) ∧ c.Passes w d

theorem modes_kind_ne_normal {g : Grammar ρ} {m : Mode} {r : ρ} (h : m.kind ≠ .normal) :
    (g.modes m r).2.kind ≠ .normal := by
  unfold modes
  split
  · exact h
  · simp
  · simp

theorem Evaluates.spells {g : Grammar ρ} {m : Mode} {p : Pattern ρ} {c : Cursor}
    {result : Option (List (ParseTree ρ) × Cursor)} (h : Evaluates g m p c result)
    (hkind : m.kind ≠ .normal) :
    ∀ ts d, result = some (ts, d) → ∃ u, c.Passes u d ∧ p.Spells g.Reads u := by
  induction h with
  | text h =>
    rintro ts d ⟨⟩
    exact ⟨_, Cursor.strip?_passes h, rfl⟩
  | char h =>
    rintro ts d ⟨⟩
    exact ⟨_, .step, _, rfl, h⟩
  | start _ | stop _ | ahead _ _ | absent _ _ =>
    rintro ts d ⟨⟩
    exact ⟨[], .refl _, rfl⟩
  | noStar _ _ | noMore _ _ =>
    rintro ts d ⟨⟩
    exact ⟨[], .refl _, [], rfl, by simp⟩
  | noOptional _ _ =>
    rintro ts d ⟨⟩
    exact ⟨[], .refl _, .inl rfl⟩
  | noText _ | noChar _ | noStart _ | noStop _ | noRule _ _ | noFirst _ _ | noSecond _ _ _ _
  | noAhead _ _ | noAbsent _ _ =>
    rintro ts d ⟨⟩
  | rule h _ =>
    rintro ts d ⟨⟩
    obtain ⟨u, hu⟩ := h.passes _ _ rfl
    exact ⟨u, hu, _, _, _, _, modes_kind_ne_normal hkind, h, hu⟩
  | seq _ _ ih ih' =>
    rintro ts d ⟨⟩
    obtain ⟨u, hu, hs⟩ := ih hkind _ _ rfl
    obtain ⟨v, hv, hs'⟩ := ih' hkind _ _ rfl
    rw [between_of_kind hkind] at hv
    exact ⟨_, hu.trans hv, u, v, rfl, hs, hs'⟩
  | star _ _ ih ih' =>
    rintro ts d ⟨⟩
    obtain ⟨u, hu, hs⟩ := ih hkind _ _ rfl
    obtain ⟨v, hv, ws, rfl, hs'⟩ := ih' hkind _ _ rfl
    refine ⟨_, hu.trans hv, u :: ws, rfl, ?_⟩
    rintro w (_ | ⟨_, hw⟩)
    · exact hs
    · exact hs' w hw
  | more _ _ ih ih' =>
    rintro ts d ⟨⟩
    obtain ⟨u, hu, hs⟩ := ih hkind _ _ rfl
    obtain ⟨v, hv, ws, rfl, hs'⟩ := ih' hkind _ _ rfl
    rw [between_of_kind hkind] at hu
    refine ⟨_, hu.trans hv, u :: ws, rfl, ?_⟩
    rintro w (_ | ⟨_, hw⟩)
    · exact hs
    · exact hs' w hw
  | first _ ih =>
    rintro ts d ⟨⟩
    obtain ⟨u, hu, hs⟩ := ih hkind _ _ rfl
    exact ⟨u, hu, .inl hs⟩
  | second _ _ _ ih =>
    intro ts d hresult
    obtain ⟨u, hu, hs⟩ := ih hkind _ _ hresult
    exact ⟨u, hu, .inr hs⟩
  | optional _ ih =>
    rintro ts d ⟨⟩
    obtain ⟨u, hu, hs⟩ := ih hkind _ _ rfl
    exact ⟨u, hu, .inr hs⟩

theorem Reads.spells {g : Grammar ρ} {r : ρ} {w : List Char} (h : g.Reads r w) :
    (g.body r).Spells g.Reads w := by
  obtain ⟨m, c, ts, d, hkind, h, hw⟩ := h
  obtain ⟨u, hu, hs⟩ := h.spells hkind _ _ rfl
  rwa [hw.unique hu]

end Grammar

namespace Pattern

/-- A pattern made of fixed texts only. -/
def isListed : Pattern ρ → Bool
  | .text _ | .start | .stop | .ahead _ | .absent _ => true
  | .char _ | .rule _ | .star _ | .more _ => false
  | .seq p q | .choice p q => p.isListed && q.isListed
  | .optional p => p.isListed

/-- All texts of such a pattern. -/
def texts : Pattern ρ → List (List Char)
  | .text chars => [chars]
  | .seq p q => p.texts.flatMap fun u => q.texts.map (u ++ ·)
  | .choice p q => p.texts ++ q.texts
  | .optional p => [] :: p.texts
  | _ => [[]]

theorem Spells.mem_texts {named : ρ → List Char → Prop} {p : Pattern ρ} {w : List Char}
    (h : p.Spells named w) (hp : p.isListed) : w ∈ p.texts := by
  induction p generalizing w with
  | text chars =>
    obtain rfl : w = chars := h
    simp [texts]
  | start | stop | ahead | absent =>
    obtain rfl : w = [] := h
    simp [texts]
  | char | rule | star | more => cases hp
  | seq p q ihp ihq =>
    obtain ⟨u, v, rfl, hu, hv⟩ := h
    obtain ⟨hp, hq⟩ := Bool.and_eq_true_iff.mp hp
    exact List.mem_flatMap.mpr ⟨u, ihp hu hp, List.mem_map.mpr ⟨v, ihq hv hq, rfl⟩⟩
  | choice p q ihp ihq =>
    obtain ⟨hp, hq⟩ := Bool.and_eq_true_iff.mp hp
    rcases h with h | h
    · exact List.mem_append_left _ (ihp h hp)
    · exact List.mem_append_right _ (ihq h hq)
  | optional p ih =>
    rcases h with rfl | h
    · simp [texts]
    · exact List.mem_cons_of_mem _ (ih h hp)

end Pattern

end QuovaKotlin.Peg

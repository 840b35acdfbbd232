import Mathlib.Logic.Relation
import QuovaKotlin.Module.Grammar
import QuovaKotlin.Proofs.Termination

/-!
# Evaluation makes progress

To evaluate a pattern at a place, other patterns have to be evaluated at the same place or at later
ones. `Enters` is this relation between goals. In a tame grammar every step of it takes some of the
effort that is left, so no chain of goals goes on for ever, and a rule that comes back to itself has
gone over a character on the way. Both grammars are tame.
-/

set_option autoImplicit false

namespace QuovaKotlin.Peg

open Relation (TransGen)

variable {ρ : Type}

/-- The bodies of all repetitions in a pattern. -/
def Pattern.repeated : Pattern ρ → List (Pattern ρ)
  | .star p | .more p => p :: p.repeated
  | .seq p q | .choice p q => p.repeated ++ q.repeated
  | .optional p | .ahead p | .absent p => p.repeated
  | .text _ | .char _ | .start | .stop | .rule _ => []

theorem Pattern.consumes_of_repeated {solid : ρ → Bool} {rank : ρ → Nat} {width : Nat}
    {p q : Pattern ρ} (hp : p.isTame solid rank width) (hq : q ∈ p.repeated) :
    q.consumes solid := by
  induction p with
  | text | char | start | stop | rule => cases hq
  | seq first second ihfirst ihsecond =>
    obtain ⟨hfirst, hsecond⟩ := isTame_of_seq hp
    rcases List.mem_append.mp hq with hq | hq
    · exact ihfirst hfirst hq
    · exact ihsecond hsecond hq
  | choice first second ihfirst ihsecond =>
    obtain ⟨hfirst, hsecond⟩ := Bool.and_eq_true_iff.mp hp
    rcases List.mem_append.mp hq with hq | hq
    · exact ihfirst hfirst hq
    · exact ihsecond hsecond hq
  | star body ih | more body ih =>
    simp only [isTame, Bool.and_eq_true] at hp
    rcases List.mem_cons.mp hq with rfl | hq
    · exact hp.1.1
    · exact ih hp.2 hq
  | optional body ih | ahead body ih | absent body ih => exact ih hp hq

/-- With less text left a place is further behind. -/
theorem Cursor.Passes.index_lt {c d : Cursor} {u : List Char} (h : c.Passes u d)
    (hlt : d.rest.length < c.rest.length) : c.index < d.index := by
  have hsplit := congrArg List.length h.rest_eq
  rw [List.length_append] at hsplit
  rw [h.index_eq]
  omega

/-- A pattern that has to be evaluated at a place. -/
structure Goal (ρ : Type) where
  mode : Mode
  pattern : Pattern ρ
  cursor : Cursor

namespace Grammar

variable {g : Grammar ρ}

/-- The evaluation of the first goal evaluates the second one on its way. What stands second in a
sequence is entered behind a match of what stands first and behind the layout that follows. -/
inductive Enters (g : Grammar ρ) : Goal ρ → Goal ρ → Prop
  | body {m r c} : Enters g ⟨m, .rule r, c⟩ ⟨(g.modes m r).2, g.body r, c⟩
  | first {m p q c} : Enters g ⟨m, .seq p q, c⟩ ⟨m, p, c⟩
  | second {m p q c ts d} : Evaluates g m p c (some (ts, d)) →
      Enters g ⟨m, .seq p q, c⟩ ⟨m, q, between m d⟩
  | choice {m p q c} : Enters g ⟨m, .choice p q, c⟩ ⟨m, p, c⟩
  | otherwise {m p q c} : Evaluates g m p c none → Enters g ⟨m, .choice p q, c⟩ ⟨m, q, c⟩
  | star {m p c} : Enters g ⟨m, .star p, c⟩ ⟨m, p, c⟩
  | others {m p c ts d} : Evaluates g m p c (some (ts, d)) →
      Enters g ⟨m, .star p, c⟩ ⟨m, .more p, d⟩
  | more {m p c} : Enters g ⟨m, .more p, c⟩ ⟨m, p, between m c⟩
  | again {m p c ts d} : Evaluates g m p (between m c) (some (ts, d)) →
      Enters g ⟨m, .more p, c⟩ ⟨m, .more p, d⟩
  | optional {m p c} : Enters g ⟨m, .optional p, c⟩ ⟨m, p, c⟩
  | ahead {m p c} :
      Enters g ⟨m, .ahead p, c⟩ ⟨{ m with lookahead := m.lookahead.enter }, p, c⟩
  | absent {m p c} :
      Enters g ⟨m, .absent p, c⟩ ⟨{ m with lookahead := m.lookahead.invert }, p, c⟩

/-- Evaluation that starts with rule `top` ends on every text. -/
structure Ends (g : Grammar ρ) (top : ρ) : Prop where
  /-- The run of a parser does not use up its fuel. -/
  run_ne_exhausted (source : String) :
    g.run (g.fuelFor source.toList.length) {} (.rule top) ⟨0, source.toList⟩ {} ≠ .exhausted
  /-- Every text is matched or refused, and the parser says which. -/
  decides (source : String) :
    (∃ tree, g.parse top source = .ok tree ∧ g.Accepts top source tree) ∨
      (∃ t, g.parse top source = .error t) ∧ g.Refuses top source
  /-- No chain of goals is endless, wherever it starts. -/
  acc (m : Mode) (r : ρ) (c : Cursor) : Acc (fun b a => g.Enters a b) ⟨m, .rule r, c⟩
  /-- A rule comes back to itself only behind a character. -/
  reentered {r : ρ} {m m' : Mode} {c d : Cursor} :
    TransGen g.Enters ⟨m, .rule r, c⟩ ⟨m', .rule r, d⟩ → c.index < d.index
  /-- What is repeated goes over a character each time. -/
  repeated {r : ρ} {p : Pattern ρ} {m : Mode} {c d : Cursor} {ts : List (ParseTree ρ)} :
    p ∈ (g.body r).repeated → Evaluates g m p c (some (ts, d)) → c.index < d.index

variable {solid : ρ → Bool} {rank : ρ → Nat} {width : Nat}

/-- The characters that are left, with what may be done for each of them, and what is done before
the next one. -/
def effort (solid : ρ → Bool) (rank : ρ → Nat) (width : Nat) (goal : Goal ρ) : Nat :=
  width * goal.cursor.rest.length + goal.pattern.depth solid rank

/-- The second goal stands at the place of the first or behind it, and takes less effort. -/
structure Descends (solid : ρ → Bool) (rank : ρ → Nat) (width : Nat) (a b : Goal ρ) : Prop where
  isTame : b.pattern.isTame solid rank width
  effort_lt : effort solid rank width b < effort solid rank width a
  passes : ∃ u, a.cursor.Passes u b.cursor

theorem Descends.same {m m' : Mode} {p q : Pattern ρ} {c : Cursor}
    (hq : q.isTame solid rank width) (hdepth : q.depth solid rank < p.depth solid rank) :
    Descends solid rank width ⟨m, p, c⟩ ⟨m', q, c⟩ :=
  ⟨hq, Nat.add_lt_add_left hdepth _, [], .refl c⟩

/-- Behind a character the depth may be anything up to `width`. -/
theorem Descends.behind {m m' : Mode} {p q : Pattern ρ} {c d : Cursor} {u : List Char}
    (hq : q.isTame solid rank width) (hdepth : q.depth solid rank ≤ width)
    (hpasses : c.Passes u d) (hlt : d.rest.length < c.rest.length) :
    Descends solid rank width ⟨m, p, c⟩ ⟨m', q, d⟩ := by
  refine ⟨hq, ?_, u, hpasses⟩
  have hfuel := fuel_behind hlt hdepth
  have hpos := p.depth_pos solid rank
  simp only [effort]
  omega

theorem Descends.trans {a b c : Goal ρ} (h : Descends solid rank width a b)
    (h' : Descends solid rank width b c) : Descends solid rank width a c := by
  obtain ⟨u, hu⟩ := h.passes
  obtain ⟨v, hv⟩ := h'.passes
  exact ⟨h'.isTame, Nat.lt_trans h'.effort_lt h.effort_lt, _, hu.trans hv⟩

variable (ht : g.Tame solid rank width)

include ht

theorem Enters.descends {a b : Goal ρ} (h : g.Enters a b)
    (ha : a.pattern.isTame solid rank width) : Descends solid rank width a b := by
  cases h with
  | @body m r c => exact .same (ht.isTame r) (Nat.lt_succ_of_le (ht.depth r))
  | @first m p q c =>
    refine .same (Pattern.isTame_of_seq ha).1 ?_
    simp only [Pattern.depth]
    split <;> omega
  | @second m p q c ts d heval =>
    obtain ⟨u, hu⟩ := heval.passes _ _ rfl
    obtain ⟨v, hv⟩ := between_passes m d
    simp only [Pattern.isTame, Bool.and_eq_true, decide_eq_true_eq] at ha
    obtain ⟨⟨hwidth, -⟩, hq⟩ := ha
    have hbetween := between_length_le m d
    by_cases hconsumes : p.consumes solid
    · have hlt := heval.length_lt ht hconsumes _ _ rfl
      exact .behind hq hwidth (hu.trans hv) (Nat.lt_of_le_of_lt hbetween hlt)
    · refine ⟨hq, ?_, _, hu.trans hv⟩
      have hle := Nat.mul_le_mul_left width (Nat.le_trans hbetween heval.length_le)
      simp only [effort, Pattern.depth, if_neg hconsumes]
      omega
  | choice =>
    refine .same (Bool.and_eq_true_iff.mp ha).1 ?_
    simp only [Pattern.depth]
    omega
  | otherwise =>
    refine .same (Bool.and_eq_true_iff.mp ha).2 ?_
    simp only [Pattern.depth]
    omega
  | star => exact .same (Bool.and_eq_true_iff.mp ha).2 (Nat.lt_succ_self _)
  | @others m p c ts d heval =>
    obtain ⟨u, hu⟩ := heval.passes _ _ rfl
    have hmore : (Pattern.more p).isTame solid rank width := ha
    simp only [Pattern.isTame, Bool.and_eq_true, decide_eq_true_eq] at ha
    exact .behind hmore ha.1.2 hu (heval.length_lt ht ha.1.1 _ _ rfl)
  | @more m p c =>
    obtain ⟨v, hv⟩ := between_passes m c
    refine ⟨(Bool.and_eq_true_iff.mp ha).2, ?_, v, hv⟩
    have hle := Nat.mul_le_mul_left width (between_length_le m c)
    simp only [effort, Pattern.depth]
    omega
  | @again m p c ts d heval =>
    obtain ⟨v, hv⟩ := between_passes m c
    obtain ⟨u, hu⟩ := heval.passes _ _ rfl
    have hmore : (Pattern.more p).isTame solid rank width := ha
    simp only [Pattern.isTame, Bool.and_eq_true, decide_eq_true_eq] at ha
    exact .behind hmore ha.1.2 (hv.trans hu)
      (Nat.lt_of_lt_of_le (heval.length_lt ht ha.1.1 _ _ rfl) (between_length_le m c))
  | optional | ahead | absent => exact .same ha (Nat.lt_succ_self _)

theorem descends_of_transGen {a b : Goal ρ} (h : TransGen g.Enters a b)
    (ha : a.pattern.isTame solid rank width) : Descends solid rank width a b := by
  induction h with
  | single h => exact h.descends ht ha
  | tail _ h ih => exact ih.trans (h.descends ht ih.isTame)

/-- The effort that is left decreases along a chain of goals. -/
theorem acc_of_isTame (goal : Goal ρ) (hgoal : goal.pattern.isTame solid rank width) :
    Acc (fun b a => g.Enters a b) goal := by
  induction heffort : effort solid rank width goal using Nat.strongRecOn generalizing goal with
  | ind n ih =>
    refine .intro goal fun b hb => ?_
    have hdescends := hb.descends ht hgoal
    exact ih _ (heffort ▸ hdescends.effort_lt) b hdescends.isTame rfl

theorem Tame.ends {top : ρ} (hwidth : width ≤ g.weight + 1) (hrank : rank top ≤ g.weight) :
    g.Ends top where
  run_ne_exhausted source := by
    refine run_ne_exhausted ht _ {} (.rule top) ⟨0, source.toList⟩ {} rfl ?_
    have := Nat.mul_le_mul_right source.toList.length hwidth
    simp only [fuelFor, Pattern.depth, Nat.mul_add, Nat.mul_one]
    omega
  decides source := parse_decides ht hwidth hrank source
  acc m r c := acc_of_isTame ht ⟨m, .rule r, c⟩ rfl
  reentered {r m m' c d} h := by
    obtain ⟨-, hlt, u, hu⟩ := descends_of_transGen ht h rfl
    have hlength : d.rest.length < c.rest.length := by
      simp only [effort] at hlt
      exact Nat.lt_of_mul_lt_mul_left (Nat.lt_of_add_lt_add_right hlt)
    exact hu.index_lt hlength
  repeated {r p m c d ts} hp h := by
    obtain ⟨u, hu⟩ := h.passes _ _ rfl
    have hconsumes := Pattern.consumes_of_repeated (ht.isTame r) hp
    exact hu.index_lt (h.length_lt ht hconsumes _ _ rfl)

end Grammar

end QuovaKotlin.Peg

namespace QuovaKotlin.Module

/-- Only the end of the input and an empty raw entry go over no character. -/
def isSolid (r : Rule) : Bool :=
  r ≠ .endOfInput && r ≠ .rawContent

def rank : Rule → Nat :=
  grammar.rankWithin isSolid 5

theorem mem_rules (r : Rule) : r ∈ grammar.rules := by
  cases r <;> decide

theorem grammar_measured : grammar.Tame isSolid rank 30 ∧ ∀ r, rank r < 30 :=
  Peg.Grammar.tame_of_isMeasured mem_rules (by decide +kernel)

theorem grammar_tame : grammar.Tame isSolid rank 30 :=
  grammar_measured.1

theorem grammar_ends : grammar.Ends .moduleFile :=
  grammar_tame.ends (by decide +kernel) (by decide +kernel)

end QuovaKotlin.Module

namespace QuovaKotlin

theorem Source.grammar_ends : Source.grammar.Ends .quovaFile :=
  Source.grammar_tame.ends (by decide +kernel) (by decide +kernel)

/-- Parsing a source file and parsing a module description end on every text. -/
theorem parsing_ends :
    Source.grammar.Ends .quovaFile ∧ Module.grammar.Ends .moduleFile :=
  ⟨Source.grammar_ends, Module.grammar_ends⟩

end QuovaKotlin

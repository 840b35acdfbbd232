import QuovaKotlin.Peg.Attempts
import QuovaKotlin.Peg.Layout
import QuovaKotlin.Peg.ParseTree

/-!
# Running a grammar

One total evaluator for all grammars. Fuel bounds the depth of the recursion, not the work; a run
that uses it up ends as `exhausted`, which is neither a match nor a failure.
-/

set_option autoImplicit false

namespace QuovaKotlin.Peg

/-- Whether the run is inside a lookahead, and of which sign. -/
inductive Lookahead
  | none
  | positive
  | negative
  deriving DecidableEq, Repr

/-- The mode inside a positive lookahead. -/
def Lookahead.enter : Lookahead → Lookahead
  | negative => negative
  | _ => positive

/-- The mode inside a negative lookahead. -/
def Lookahead.invert : Lookahead → Lookahead
  | negative => positive
  | _ => negative

/-- What the rules around a pattern decide for it. -/
structure Mode where
  kind : RuleKind := .normal
  lookahead : Lookahead := .none
  deriving DecidableEq, Repr

/-- Whether a rule that matches in this mode leaves a tree. -/
def Mode.keepsTrees (m : Mode) : Bool :=
  m.lookahead = .none && m.kind ≠ .atomic

inductive Outcome (ρ : Type)
  | success (cursor : Cursor) (trees : List (ParseTree ρ)) (attempts : Attempts ρ)
  | failure (attempts : Attempts ρ)
  | exhausted

namespace Grammar

variable {ρ : Type}

/-- The mode around a rule and the mode of its body. -/
def modes (g : Grammar ρ) (m : Mode) (r : ρ) : Mode × Mode :=
  match g.kind r with
  | .normal => (m, m)
  | .atomic => (m, { m with kind := .atomic })
  | .compound => ({ m with kind := .compound }, { m with kind := .compound })

/-- The tree that rule `r` leaves for the text between two places. -/
def treeOf (g : Grammar ρ) (r : ρ) (c d : Cursor) (inner : List (ParseTree ρ)) : ParseTree ρ :=
  match g.kind r with
  | .atomic => .token r ⟨c.index, d.index⟩ (c.textTo d)
  | _ => .node r ⟨c.index, d.index⟩ inner

/-- Records an attempt, except inside an atomic rule. -/
def note (m : Mode) (r : ρ) (index : Nat) (before : Attempts.Mark) (t : Attempts ρ) : Attempts ρ :=
  if m.kind = .atomic then t else t.track r index before (m.lookahead = .negative)

/-- Layout is skipped between the parts of normal rules only. -/
def between (m : Mode) (c : Cursor) : Cursor :=
  if m.kind = .normal then c.skipLayout else c

/-- Matches a pattern at a place of the input. A failure consumes nothing. -/
def run (g : Grammar ρ) : Nat → Mode → Pattern ρ → Cursor → Attempts ρ → Outcome ρ
  | 0, _, _, _, _ => .exhausted
  | _ + 1, _, .text chars, c, t =>
    match c.strip? chars with
    | some d => .success d [] t
    | none => .failure t
  | _ + 1, _, .char cls, c, t =>
    match c.rest with
    | x :: rest => if cls.accepts x then .success ⟨c.index + 1, rest⟩ [] t else .failure t
    | [] => .failure t
  | _ + 1, _, .start, c, t => if c.index = 0 then .success c [] t else .failure t
  | _ + 1, _, .stop, c, t => if c.rest.isEmpty then .success c [] t else .failure t
  | fuel + 1, m, .rule r, c, t =>
    let (around, inside) := g.modes m r
    let before := t.mark c.index
    match g.run fuel inside (g.body r) c t with
    | .success d inner t =>
      .success d (if around.keepsTrees then [g.treeOf r c d inner] else [])
        (if around.lookahead = .negative then note around r c.index before t else t)
    | .failure t =>
      .failure (if around.lookahead = .negative then t else note around r c.index before t)
    | .exhausted => .exhausted
  | fuel + 1, m, .seq p q, c, t =>
    match g.run fuel m p c t with
    | .success d first t =>
      match g.run fuel m q (between m d) t with
      | .success e second t => .success e (first ++ second) t
      | other => other
    | other => other
  | fuel + 1, m, .choice p q, c, t =>
    match g.run fuel m p c t with
    | .failure t => g.run fuel m q c t
    | other => other
  | fuel + 1, m, .star p, c, t =>
    match g.run fuel m p c t with
    | .success d first t =>
      match g.run fuel m (.more p) d t with
      | .success e others t => .success e (first ++ others) t
      | other => other
    | .failure t => .success c [] t
    | .exhausted => .exhausted
  | fuel + 1, m, .more p, c, t =>
    match g.run fuel m p (between m c) t with
    | .success d first t =>
      match g.run fuel m (.more p) d t with
      | .success e others t => .success e (first ++ others) t
      | other => other
    | .failure t => .success c [] t
    | .exhausted => .exhausted
  | fuel + 1, m, .optional p, c, t =>
    match g.run fuel m p c t with
    | .failure t => .success c [] t
    | other => other
  | fuel + 1, m, .ahead p, c, t =>
    match g.run fuel { m with lookahead := m.lookahead.enter } p c t with
    | .success _ _ t => .success c [] t
    | other => other
  | fuel + 1, m, .absent p, c, t =>
    match g.run fuel { m with lookahead := m.lookahead.invert } p c t with
    | .success _ _ t => .failure t
    | .failure t => .success c [] t
    | .exhausted => .exhausted

/--
Fuel that no run over an input of the given length uses up: between two characters a run passes
through each rule at most once.
-/
def fuelFor (g : Grammar ρ) (length : Nat) : Nat :=
  (g.weight + 1) * (length + 1)

/-- Parses a whole text from rule `r`. A refusal comes with the furthest attempts. -/
def parse (g : Grammar ρ) (r : ρ) (source : String) : Except (Attempts ρ) (ParseTree ρ) :=
  let input := source.toList
  match g.run (g.fuelFor input.length) {} (.rule r) ⟨0, input⟩ {} with
  | .success _ (tree :: _) _ => .ok tree
  | .success _ [] t | .failure t => .error t
  | .exhausted => .error {}

end Grammar

end QuovaKotlin.Peg

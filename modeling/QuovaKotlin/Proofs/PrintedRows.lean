import QuovaKotlin.Proofs.KotlinTokens

/-!
# Reading printed rows

The tokens of an expression are read from left to right into rows. A row has no parentheses: what
stood in them is one operand of the row around it. What the operands and the operators of a row are,
and what a whole row stands for, is left to a dialect. The tokens that write a row are read as that
row wherever an operand may stand.
-/

set_option autoImplicit false

namespace QuovaKotlin

/-- The items of the rows, and what a row stands for. -/
structure Dialect (ι ω : Type) where
  /-- A word. -/
  term : String → ι
  /-- What stands in parentheses. -/
  enclosed : ω → ι
  sign? : String → Option ι
  joint? : String → Option ι
  /-- The calls of the members of an item, with the row of their arguments. -/
  call? : ι → Option (String → ω → ι)
  row? : List ι → Option ω

namespace Dialect

variable {ι ω : Type}

/-- What the next token may be. -/
inductive Place (ι ω : Type)
  | operand
  | operator
  /-- Behind the `!` of `!in` and `!is`. -/
  | negated
  /-- Behind a point. -/
  | member (call : String → ω → ι)
  /-- Behind the name of a member. -/
  | arguments (close : ω → ι)

/-- The row in front of an open parenthesis, and the item that the parentheses become. -/
structure Frame (ι ω : Type) where
  row : List ι
  close : ω → ι

/-- The open parentheses and the innermost row, with its latest item first. -/
structure State (ι ω : Type) where
  outer : List (Frame ι ω)
  row : List ι
  place : Place ι ω

def isTerm (token : String) : Bool :=
  token.toList.head?.any Lexical.isWordChar

variable (d : Dialect ι ω)

def join (s : State ι ω) (symbol : String) : Option (State ι ω) :=
  (d.joint? symbol).map fun joint => ⟨s.outer, joint :: s.row, .operand⟩

def step (s : State ι ω) (token : String) : Option (State ι ω) :=
  match s.place with
  | .operand =>
    if token = "(" then some ⟨⟨s.row, d.enclosed⟩ :: s.outer, [], .operand⟩
    else if isTerm token then some ⟨s.outer, d.term token :: s.row, .operator⟩
    else (d.sign? token).map fun sign => ⟨s.outer, sign :: s.row, .operand⟩
  | .operator =>
    if token = ")" then
      match s.outer with
      | [] => none
      | frame :: outer =>
        (d.row? s.row.reverse).map fun inside => ⟨outer, frame.close inside :: frame.row, .operator⟩
    else if token = "!" then some ⟨s.outer, s.row, .negated⟩
    else if token = "." then
      match s.row with
      | [] => none
      | receiver :: row => (d.call? receiver).map fun call => ⟨s.outer, row, .member call⟩
    else d.join s token
  | .negated => if token = "in" ∨ token = "is" then d.join s ("!" ++ token) else none
  | .member call => if isTerm token then some ⟨s.outer, s.row, .arguments (call token)⟩ else none
  | .arguments close =>
    if token = "(" then some ⟨⟨s.row, close⟩ :: s.outer, [], .operand⟩ else none

def finish (s : State ι ω) : Option ω :=
  match s.place, s.outer with
  | .operator, [] => d.row? s.row.reverse
  | _, _ => none

/-- What a whole row of tokens stands for. -/
def read? (tokens : List String) : Option ω :=
  (tokens.foldlM d.step ⟨[], [], .operand⟩).bind d.finish

/-- The tokens of an infix operator: `!in` and `!is` are two of them. -/
inductive Joins : List String → ι → Prop
  | symbol {token : String} {joint : ι} : token ∉ [")", "!", "."] → d.joint? token = some joint →
      Joins [token] joint
  | negated {token : String} {joint : ι} : token = "in" ∨ token = "is" →
      d.joint? ("!" ++ token) = some joint → Joins ["!", token] joint

/-- The tokens that write a row. -/
inductive Writes : List String → List ι → Prop
  | term {text : String} : Lexical.IsTerm text.toList → Writes [text] [d.term text]
  | enclosed {tokens : List String} {row : List ι} {inside : ω} :
      Writes tokens row → d.row? row = some inside →
      Writes ("(" :: (tokens ++ [")"])) [d.enclosed inside]
  | signed {token : String} {sign : ι} {tokens : List String} {row : List ι} :
      token ≠ "(" → isTerm token = false → d.sign? token = some sign → Writes tokens row →
      Writes (token :: tokens) (sign :: row)
  | joined {symbol tokens tokens' : List String} {joint : ι} {row row' : List ι} :
      Writes tokens row → d.Joins symbol joint → Writes tokens' row' →
      Writes (tokens ++ (symbol ++ tokens')) (row ++ joint :: row')
  | called {member : String} {tokens tokens' : List String} {receiver : ι} {row : List ι}
      {call : String → ω → ι} {inside : ω} :
      Writes tokens [receiver] → d.call? receiver = some call → Lexical.IsTerm member.toList →
      Writes tokens' row → d.row? row = some inside →
      Writes (tokens ++ (["."] ++ ([member] ++ (["("] ++ (tokens' ++ [")"])))))
        [call member inside]

variable {d} {token : String} {tokens : List String} {row : List ι}

theorem isTerm_eq {text : String} (h : Lexical.IsTerm text.toList) :
    text ≠ "(" ∧ isTerm text = true := by
  obtain ⟨x, u, htext, hx⟩ := h.head
  constructor
  · rintro rfl
    obtain ⟨rfl, -⟩ := List.cons.inj htext
    revert hx
    decide
  · rw [isTerm, htext]
    exact hx

theorem step_term {text : String} (h : Lexical.IsTerm text.toList) (outer : List (Frame ι ω)) :
    d.step ⟨outer, row, .operand⟩ text = some ⟨outer, d.term text :: row, .operator⟩ := by
  obtain ⟨hopening, hterm⟩ := isTerm_eq h
  simp only [step, if_neg hopening, if_pos hterm]

theorem step_closing {inside : ω} (h : d.row? row = some inside) (frame : Frame ι ω)
    (outer : List (Frame ι ω)) :
    d.step ⟨frame :: outer, row.reverse, .operator⟩ ")" =
      some ⟨outer, frame.close inside :: frame.row, .operator⟩ := by
  simp only [step, if_true, List.reverse_reverse, h, Option.map_some]

theorem Joins.foldlM_step {symbol : List String} {joint : ι} (h : d.Joins symbol joint)
    (outer : List (Frame ι ω)) (row : List ι) :
    symbol.foldlM d.step ⟨outer, row, .operator⟩ = some ⟨outer, joint :: row, .operand⟩ := by
  cases h with
  | @symbol token _ hother hjoint =>
    simp only [List.mem_cons, List.not_mem_nil, or_false, not_or] at hother
    obtain ⟨hclosing, hnegation, hpoint⟩ := hother
    have hstep : d.step ⟨outer, row, .operator⟩ token = some ⟨outer, joint :: row, .operand⟩ := by
      simp only [step, if_neg hclosing, if_neg hnegation, if_neg hpoint, join, hjoint,
        Option.map_some]
    exact (bind_pure _).trans hstep
  | @negated token _ hword hjoint =>
    have hstep : d.step ⟨outer, row, .negated⟩ token = some ⟨outer, joint :: row, .operand⟩ := by
      simp only [step, if_pos hword, join, hjoint, Option.map_some]
    exact (bind_pure _).trans hstep

/-- A state that waits for an operand takes a whole row for it. -/
theorem Writes.foldlM_step (h : d.Writes tokens row) (outer : List (Frame ι ω)) (front : List ι) :
    tokens.foldlM d.step ⟨outer, front, .operand⟩ =
      some ⟨outer, row.reverse ++ front, .operator⟩ := by
  induction h generalizing outer front with
  | term hterm => exact (bind_pure _).trans (step_term hterm outer)
  | @enclosed tokens row inside _ hrow ih =>
    have hopen : d.step ⟨outer, front, .operand⟩ "(" =
        some ⟨⟨front, d.enclosed⟩ :: outer, [], .operand⟩ := rfl
    rw [List.foldlM_cons, hopen, Option.bind_eq_bind, Option.bind_some, List.foldlM_append, ih,
      List.append_nil, Option.bind_eq_bind, Option.bind_some, List.foldlM_cons, step_closing hrow]
    rfl
  | @signed token sign tokens row hopening hterm hsign _ ih =>
    have hstep : d.step ⟨outer, front, .operand⟩ token = some ⟨outer, sign :: front, .operand⟩ := by
      simp only [step, if_neg hopening, hterm, Bool.false_eq_true, if_false, hsign, Option.map_some]
    rw [List.foldlM_cons, hstep, Option.bind_eq_bind, Option.bind_some, ih, List.reverse_cons,
      List.append_assoc, List.singleton_append]
  | joined _ hjoins _ ih ih' =>
    rw [List.foldlM_append, ih, Option.bind_eq_bind, Option.bind_some, List.foldlM_append,
      hjoins.foldlM_step, Option.bind_eq_bind, Option.bind_some, ih']
    simp only [List.reverse_append, List.reverse_cons, List.append_assoc, List.cons_append,
      List.nil_append]
  | @called member tokens tokens' receiver row call inside _ hcall hmember _ hrow ih ih' =>
    have hpoint : d.step ⟨outer, receiver :: front, .operator⟩ "." =
        some ⟨outer, front, .member call⟩ := by
      show Option.map _ (d.call? receiver) = _
      rw [hcall, Option.map_some]
    have hname : d.step ⟨outer, front, .member call⟩ member =
        some ⟨outer, front, .arguments (call member)⟩ := by
      simp only [step, if_pos (isTerm_eq hmember).2]
    have hopen : d.step ⟨outer, front, .arguments (call member)⟩ "(" =
        some ⟨⟨front, call member⟩ :: outer, [], .operand⟩ := rfl
    rw [List.foldlM_append, ih, List.reverse_singleton, List.singleton_append,
      Option.bind_eq_bind, Option.bind_some, List.singleton_append, List.foldlM_cons, hpoint,
      Option.bind_eq_bind, Option.bind_some, List.singleton_append, List.foldlM_cons, hname,
      Option.bind_eq_bind, Option.bind_some, List.singleton_append, List.foldlM_cons, hopen,
      Option.bind_eq_bind, Option.bind_some, List.foldlM_append, ih', List.append_nil,
      Option.bind_eq_bind, Option.bind_some, List.foldlM_cons, step_closing hrow]
    rfl

theorem Writes.read?_eq (h : d.Writes tokens row) : d.read? tokens = d.row? row := by
  rw [read?, h.foldlM_step, List.append_nil, Option.bind_some]
  simp only [finish, List.reverse_reverse]

/-- No state gets past a token that none of them takes. -/
theorem foldlM_step_of_mem (hstep : ∀ s, d.step s token = none) (hmem : token ∈ tokens)
    (s : State ι ω) : tokens.foldlM d.step s = none := by
  induction tokens generalizing s with
  | nil => cases hmem
  | cons first tokens ih =>
    rw [List.foldlM_cons]
    rcases List.mem_cons.mp hmem with rfl | hmem
    · rw [hstep]
      rfl
    · cases d.step s first with
      | none => rfl
      | some s' => exact ih hmem s'

theorem read?_of_mem (hstep : ∀ s, d.step s token = none) (hmem : token ∈ tokens) :
    d.read? tokens = none := by
  rw [read?, foldlM_step_of_mem hstep hmem, Option.bind_none]

theorem Writes.not_mem (h : d.Writes tokens row) (hstep : ∀ s, d.step s token = none) :
    token ∉ tokens := by
  intro hmem
  have htaken := h.foldlM_step [] []
  rw [foldlM_step_of_mem hstep hmem] at htaken
  cases htaken

/-- The tokens of a printed infix operator. -/
theorem joins_lexemes {operator : Ast.BinaryOperator} (h : operator.IsPlain) {joint : ι}
    (hjoint : d.joint? operator.symbol = some joint) :
    d.Joins (Lexical.lexemes operator.symbol) joint := by
  cases operator with
  | spaceship => exact absurd h id
  | product o | sum o | shift o | comparison o | equality o =>
    cases o <;> exact .symbol (by decide) hjoint
  | check o =>
    cases o with
    | inside | ofType => exact .symbol (by decide) hjoint
    | notInside => exact .negated (.inl rfl) hjoint
    | notOfType => exact .negated (.inr rfl) hjoint
  | range | elvis | bitAnd | bitXor | bitOr | conjunction | disjunction =>
    exact .symbol (by decide) hjoint

end Dialect

end QuovaKotlin
